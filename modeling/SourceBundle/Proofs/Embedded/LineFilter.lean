import SourceBundle.Proofs.Production.Composition

/-!
Rewriting without the production profile. What is left of a text are the lines that neither declare an import, where
the embedded profile asks for it, nor hold a comment without text; each of them stays as it is, with its newline.
-/

namespace SourceBundle

open Text

namespace Pattern

variable {a b : Pattern} {before : Option Char} {u after : List Char}

def Takes (p : Pattern) (before : Option Char) (u after : List Char) : Prop := ∃ v, p.Reads before u after v

theorem takes_append : (a ++ b).Takes before u after ↔
    ∃ w z, u = w ++ z ∧ a.Takes before w (z ++ after) ∧ b.Takes (lastOf before w) z after := by
  simp only [Takes, reads_append]
  constructor
  · rintro ⟨_, w, z, x, y, rfl, rfl, first, second⟩
    exact ⟨w, z, rfl, ⟨x, first⟩, ⟨y, second⟩⟩
  · rintro ⟨w, z, rfl, ⟨x, first⟩, ⟨y, second⟩⟩
    exact ⟨_, w, z, x, y, rfl, rfl, first, second⟩

theorem takes_optional : (optional a).Takes before u after ↔ a.Takes before u after ∨ u = [] := by
  simp [Takes, optional, Reads, exists_or]

def EndsLine (e after : List Char) : Prop := e = ['\n'] ∨ e = [] ∧ after = []

theorem EndsLine.stops {p : Char → Bool} {e : List Char} (ends : EndsLine e after) (newline : p '\n' = false) :
    Stops p (e ++ after) := by
  rcases ends with rfl | ⟨rfl, rfl⟩
  · exact (stops_cons _ _ _).2 newline
  · exact stops_nil _

/-- The pattern reads the lines of a kind, each from its start to its newline or to the end of the text. -/
structure ReadsLines (p : Pattern) (kind : List Char → Prop) : Prop where
  inline : ∀ line, kind line → Within isInline line
  filled : ¬ kind []
  takes : ∀ before u after, p.Takes before u after ↔
    OpensLine before ∧ ∃ line e, u = line ++ e ∧ kind line ∧ EndsLine e after

variable {p : Pattern} {kind : List Char → Prop}

theorem ReadsLines.matches_iff (reads : p.ReadsLines kind) (line : List Char) :
    Within isInline line ∧ (p.match? (.ofText line)).isSome = true ↔ kind line := by
  constructor
  · rintro ⟨inline, found⟩
    obtain ⟨d, found⟩ := Option.isSome_iff_exists.1 found
    obtain ⟨u, after, v, split, here, -⟩ := match_sound found
    obtain ⟨-, w, e, rfl, good, ends⟩ := (reads.takes _ _ _).1 ⟨v, here⟩
    have split : line = w ++ e ++ after := split
    rcases ends with rfl | ⟨rfl, rfl⟩
    · have newline : '\n' ∈ line := by simp [split]
      exact absurd (inline '\n' newline) (by decide)
    · rw [split, List.append_nil, List.append_nil]
      exact good
  · intro good
    refine ⟨reads.inline line good, ?_⟩
    rw [Option.isSome_iff_ne_none]
    intro fails
    obtain ⟨v, here⟩ := (reads.takes none line []).2 ⟨opensLine_none, line, [], by simp, good, .inr ⟨rfl, rfl⟩⟩
    exact match_none_iff.1 fails line [] v (List.append_nil line).symm here

theorem ReadsLines.takesLines [DecidablePred kind] (reads : p.ReadsLines kind) :
    (drop p).TakesLines fun line => decide (kind line) := by
  intro before u after v
  rw [reads_drop, ← Takes, reads.takes]
  constructor
  · rintro ⟨rfl, opens, line, e, rfl, good, ends⟩
    exact ⟨rfl, opens, line, e, rfl, reads.inline line good, decide_eq_true good, ends⟩
  · rintro ⟨rfl, opens, line, e, rfl, -, good, ends⟩
    exact ⟨rfl, opens, line, e, rfl, of_decide_eq_true good, ends⟩

theorem ReadsLines.rewrite [DecidablePred kind] (reads : p.ReadsLines kind) (s : List Char) :
    (drop p).rewrite s = keepLines (fun line => !decide (kind line)) s :=
  rewrite_takesLines reads.takesLines (decide_eq_false reads.filled) s

end Pattern

namespace Swift

open Pattern

variable {before : Option Char} {u w e after : List Char}

inductive Qualifiers : List Char → Prop
  | none : Qualifiers []
  | more {q : String} {g u : List Char} :
      q ∈ importQualifiers → Within isInlineBlank g → g ≠ [] → Qualifiers u → Qualifiers (q.toList ++ g ++ u)

def SymbolKind (u : List Char) : Prop :=
  u = [] ∨ ∃ kind ∈ importKinds, ∃ g, u = kind.toList ++ g ∧ Within isInlineBlank g ∧ g ≠ []

def isModulePart (c : Char) : Bool := isIdentifierPart c || c == '.'

def ModulePath (u : List Char) : Prop := ∃ c w, u = c :: w ∧ isIdentifierStart c = true ∧ Within isModulePart w

/-- What may stand behind the path: blanks, a semicolon, blanks and a comment. -/
def ImportEnd (u : List Char) : Prop :=
  ∃ g m h k, u = g ++ m ++ h ++ k ∧ Within isInlineBlank g ∧ (m = [] ∨ m = [';']) ∧ Within isInlineBlank h ∧
    (k = [] ∨ ∃ r, k = '/' :: '/' :: r ∧ Within isInline r)

/-- The line declares an import and nothing else. -/
def DeclaresImport (line : List Char) : Prop :=
  ∃ g q h k p e, line = g ++ q ++ "import".toList ++ h ++ k ++ p ++ e ∧ Within isInlineBlank g ∧ Qualifiers q ∧
    Within isInlineBlank h ∧ h ≠ [] ∧ SymbolKind k ∧ ModulePath p ∧ ImportEnd e

def HoldsEmptyComment (line : List Char) : Prop :=
  ∃ g h, line = g ++ "//".toList ++ h ∧ Within isInlineBlank g ∧ Within isInlineBlank h

theorem takes_gap : gap.Takes before u after ↔ Within isInlineBlank u ∧ Stops isInlineBlank after := by
  simp [Takes, reads_gap]

theorem takes_someGap :
    someGap.Takes before u after ↔ Within isInlineBlank u ∧ u ≠ [] ∧ Stops isInlineBlank after := by
  simp [Takes, reads_someGap]

theorem takes_literal {s : String} : (literal s).Takes before u after ↔ u = s.toList := by
  simp [Takes, reads_literal]

theorem takes_anyText {choices : List String} (filled : choices ≠ []) :
    (anyText choices).Takes before u after ↔ ∃ s ∈ choices, u = s.toList := by
  simp only [Takes, reads_anyText filled]
  constructor
  · rintro ⟨_, s, member, rfl, -⟩
    exact ⟨s, member, rfl⟩
  · rintro ⟨s, member, rfl⟩
    exact ⟨_, s, member, rfl, rfl⟩

theorem takes_lineEnd : lineEnd.Takes before u after ↔ EndsLine u after := by
  simp [Takes, lineEnd, newline, Reads, EndsLine, exists_or]

theorem stops_words {words : List String} (solid : ∀ word ∈ words, ∃ c ∈ word.toList.head?, isInlineBlank c = false)
    {word : String} (member : word ∈ words) (rest : List Char) : Stops isInlineBlank (word.toList ++ rest) := by
  obtain ⟨c, first, unblank⟩ := solid word member
  obtain ⟨w, spelled⟩ := List.head?_eq_some_iff.1 first
  rw [spelled]
  exact (stops_cons _ _ _).2 unblank

theorem Qualifiers.stops (qualifiers : Qualifiers u) (stops : Stops isInlineBlank after) :
    Stops isInlineBlank (u ++ after) := by
  cases qualifiers with
  | none => exact stops
  | more member _ _ _ =>
      rw [List.append_assoc, List.append_assoc]
      exact stops_words (by decide) member _

theorem SymbolKind.stops (kind : SymbolKind u) (stops : Stops isInlineBlank after) :
    Stops isInlineBlank (u ++ after) := by
  rcases kind with rfl | ⟨kind, member, g, rfl, -⟩
  · exact stops
  · rw [List.append_assoc]
    exact stops_words (by decide) member _

theorem isModulePart_of_isInlineBlank {c : Char} (blank : isInlineBlank c = true) : isModulePart c = false :=
  of_isBlank (P := fun c => isModulePart c = false) (by decide +kernel) (isBlank_of_isInlineBlank blank)

theorem isInlineBlank_of_isModulePart {c : Char} (part : isModulePart c = true) : isInlineBlank c = false := by
  by_contra blank
  rw [isModulePart_of_isInlineBlank (Bool.not_eq_false _ ▸ blank)] at part
  cases part

theorem isModulePart_of_isIdentifierStart {c : Char} (start : isIdentifierStart c = true) : isModulePart c = true := by
  rw [isIdentifierStart, Bool.or_eq_true] at start
  rcases start with letter | underscore
  · simp [isModulePart, isIdentifierPart, Char.isAlphanum, letter]
  · simp [isModulePart, isIdentifierPart, underscore]

theorem ModulePath.within (path : ModulePath u) : Within isModulePart u := by
  obtain ⟨c, w, rfl, start, part⟩ := path
  exact (within_cons _ _ _).2 ⟨isModulePart_of_isIdentifierStart start, part⟩

theorem ModulePath.stops (path : ModulePath u) : Stops isInlineBlank (u ++ after) := by
  obtain ⟨c, w, rfl, start, -⟩ := path
  exact (stops_cons _ _ _).2 (isInlineBlank_of_isModulePart (isModulePart_of_isIdentifierStart start))

theorem stops_blank {p : Char → Bool} {g : List Char} (apart : ∀ c, isInlineBlank c = true → p c = false)
    (blank : Within isInlineBlank g) (stops : Stops p after) : Stops p (g ++ after) := by
  cases g with
  | nil => exact stops
  | cons c g => exact (stops_cons _ _ _).2 (apart c (blank c (by simp)))

theorem ImportEnd.stops (rest : ImportEnd u) (stops : Stops isModulePart after) : Stops isModulePart (u ++ after) := by
  obtain ⟨g, m, h, k, rfl, blank, mark, blank', comment⟩ := rest
  have comment : Stops isModulePart (k ++ after) := by
    rcases comment with rfl | ⟨r, rfl, -⟩
    · exact stops
    · exact (stops_cons _ _ _).2 (by decide)
  have mark : Stops isModulePart (m ++ (h ++ (k ++ after))) := by
    rcases mark with rfl | rfl
    · rw [List.nil_append]
      exact stops_blank (fun _ => isModulePart_of_isInlineBlank) blank' comment
    · exact (stops_cons _ _ _).2 (by decide)
  simpa using stops_blank (fun _ => isModulePart_of_isInlineBlank) blank mark

theorem takes_qualifiers (stops : Stops isInlineBlank after) :
    (repeated (anyText importQualifiers ++ someGap)).Takes before u after ↔ Qualifiers u := by
  constructor
  · rintro ⟨v, n, -, rounds⟩
    induction rounds with
    | stop => exact .none
    | round first later ih =>
        obtain ⟨_, g, rfl, name, blanks⟩ := takes_append.1 ⟨_, first⟩
        obtain ⟨q, member, rfl⟩ := (takes_anyText (by decide)).1 name
        obtain ⟨blank, filled, -⟩ := takes_someGap.1 blanks
        exact .more member blank filled (ih stops)
  · intro qualifiers
    have rounds : ∃ n v, n ≤ u.length ∧ Rounds (anyText importQualifiers ++ someGap).Reads n before u after v := by
      induction qualifiers generalizing before with
      | none => exact ⟨0, [], le_rfl, .stop⟩
      | @more q g u member blank filled later ih =>
          obtain ⟨n, z, few, rounds⟩ := ih
          have name : (anyText importQualifiers).Takes before q.toList (g ++ (u ++ after)) :=
            (takes_anyText (by decide)).2 ⟨q, member, rfl⟩
          have blanks : someGap.Takes (lastOf before q.toList) g (u ++ after) :=
            takes_someGap.2 ⟨blank, filled, later.stops stops⟩
          obtain ⟨v, first⟩ := takes_append.2 ⟨q.toList, g, rfl, name, blanks⟩
          refine ⟨n + 1, v ++ z, ?_, .round first rounds⟩
          have := List.length_pos_iff.2 filled
          simp only [List.length_append]
          omega
    obtain ⟨n, v, few, rounds⟩ := rounds
    refine ⟨v, n, ?_, rounds⟩
    rw [List.length_append]
    omega

def symbolKind : Pattern := Pattern.optional (anyText importKinds ++ someGap)

theorem takes_symbolKind (stops : Stops isInlineBlank after) : symbolKind.Takes before u after ↔ SymbolKind u := by
  rw [symbolKind, takes_optional, takes_append, SymbolKind, or_comm]
  apply or_congr_right
  constructor
  · rintro ⟨_, g, rfl, name, blanks⟩
    obtain ⟨kind, member, rfl⟩ := (takes_anyText (by decide)).1 name
    obtain ⟨blank, filled, -⟩ := takes_someGap.1 blanks
    exact ⟨kind, member, g, rfl, blank, filled⟩
  · rintro ⟨kind, member, g, rfl, blank, filled⟩
    exact ⟨kind.toList, g, rfl, (takes_anyText (by decide)).2 ⟨kind, member, rfl⟩,
      takes_someGap.2 ⟨blank, filled, stops⟩⟩

theorem takes_modulePath (stops : Stops isModulePart after) : modulePath.Takes before u after ↔ ModulePath u := by
  rw [modulePath, takes_append, ModulePath]
  constructor
  · rintro ⟨_, w, rfl, ⟨_, c, start, rfl, rfl⟩, _, part, -⟩
    exact ⟨c, w, rfl, start, part⟩
  · rintro ⟨c, w, rfl, start, part⟩
    exact ⟨[c], w, rfl, ⟨[c], c, start, rfl, rfl⟩, w, part, by simp, stops, rfl⟩

def importTail : Pattern :=
  gap ++ (Pattern.optional (literal ";") ++ (gap ++ (Pattern.optional (literal "//" ++ restOfLine) ++ lineEnd)))

theorem takes_comment (stops : Stops isInline after) :
    (Pattern.optional (literal "//" ++ restOfLine)).Takes before u after ↔
      u = [] ∨ ∃ r, u = '/' :: '/' :: r ∧ Within isInline r := by
  rw [takes_optional, takes_append, or_comm]
  apply or_congr_right
  constructor
  · rintro ⟨_, r, rfl, ⟨_, rfl, -⟩, _, inline, -⟩
    exact ⟨r, rfl, inline⟩
  · rintro ⟨r, rfl, inline⟩
    exact ⟨"//".toList, r, rfl, ⟨_, rfl, rfl⟩, r, inline, by simp, stops, rfl⟩

theorem ImportEnd.spaced (rest : ImportEnd u) : ∃ g m h k, u = g ++ m ++ h ++ k ∧ Within isInlineBlank g ∧
    (m = [] ∧ h = [] ∨ m = [';']) ∧ Within isInlineBlank h ∧
    (k = [] ∨ ∃ r, k = '/' :: '/' :: r ∧ Within isInline r) := by
  obtain ⟨g, m, h, k, rfl, blank, rfl | rfl, blank', comment⟩ := rest
  · exact ⟨g ++ h, [], [], k, by simp, (within_append _ _ _).2 ⟨blank, blank'⟩, .inl ⟨rfl, rfl⟩, within_nil _, comment⟩
  · exact ⟨g, [';'], h, k, rfl, blank, .inr rfl, blank', comment⟩

theorem takes_importTail :
    importTail.Takes before u after ↔ ∃ w e, u = w ++ e ∧ ImportEnd w ∧ EndsLine e after := by
  rw [importTail]
  simp only [takes_append, takes_gap, takes_lineEnd]
  constructor
  · rintro ⟨g, _, rfl, ⟨blank, -⟩, m, _, rfl, mark, h, _, rfl, ⟨blank', -⟩, k, e, rfl, comment, ends⟩
    rw [takes_comment (ends.stops (by decide))] at comment
    rw [takes_optional, takes_literal] at mark
    exact ⟨g ++ m ++ h ++ k, e, by simp, ⟨g, m, h, k, rfl, blank, mark.symm, blank', comment⟩, ends⟩
  · rintro ⟨w, e, rfl, rest, ends⟩
    obtain ⟨g, m, h, k, rfl, blank, mark, blank', comment⟩ := rest.spaced
    have stops : Stops isInlineBlank (k ++ (e ++ after)) := by
      rcases comment with rfl | ⟨r, rfl, -⟩
      · exact ends.stops (by decide)
      · exact (stops_cons _ _ _).2 (by decide)
    have stops' : Stops isInlineBlank (m ++ (h ++ (k ++ (e ++ after)))) := by
      rcases mark with ⟨rfl, rfl⟩ | rfl
      · exact stops
      · exact (stops_cons _ _ _).2 (by decide)
    refine ⟨g, m ++ (h ++ (k ++ e)), by simp, ⟨blank, by simpa using stops'⟩, m, h ++ (k ++ e), rfl, ?_, h, k ++ e,
      rfl, ⟨blank', by simpa using stops⟩, k, e, rfl, ?_, ends⟩
    · rw [takes_optional, takes_literal]
      exact (mark.imp_left And.left).symm
    · exact (takes_comment (ends.stops (by decide))).2 comment

theorem importLine_parts : importLine = lineStart ++ (gap ++ (repeated (anyText importQualifiers ++ someGap) ++
    (literal "import" ++ (someGap ++ (symbolKind ++ (modulePath ++ importTail)))))) := rfl

theorem takes_importLine : importLine.Takes before u after ↔
    OpensLine before ∧ ∃ w e, u = w ++ e ∧ DeclaresImport w ∧ EndsLine e after := by
  rw [importLine_parts]
  simp only [takes_append, takes_gap, takes_someGap, takes_literal, takes_importTail]
  constructor
  · rintro ⟨_, _, rfl, ⟨_, rfl, -, opens⟩, g, _, rfl, ⟨blank, -⟩, q, _, rfl, qualifiers, _, _, rfl, rfl, h, _, rfl,
      ⟨blank', filled, -⟩, k, _, rfl, kind, p, _, rfl, path, w, e, rfl, rest, ends⟩
    have stops : Stops isModulePart (w ++ (e ++ after)) := rest.stops (ends.stops (by decide))
    rw [takes_modulePath (by simpa using stops)] at path
    rw [takes_symbolKind (by simpa using path.stops)] at kind
    have keyword : Stops isInlineBlank ("import".toList ++ (h ++ (k ++ (p ++ (w ++ e)))) ++ after) :=
      (stops_cons _ _ _).2 (by decide)
    rw [takes_qualifiers keyword] at qualifiers
    exact ⟨opens, _, e, by simp, ⟨g, q, h, k, p, w, rfl, blank, qualifiers, blank', filled, kind, path, rest⟩, ends⟩
  · rintro ⟨opens, _, e, rfl, ⟨g, q, h, k, p, w, rfl, blank, qualifiers, blank', filled, kind, path, rest⟩, ends⟩
    have stops : Stops isModulePart (w ++ (e ++ after)) := rest.stops (ends.stops (by decide))
    have path' : Stops isInlineBlank (p ++ (w ++ e ++ after)) := path.stops
    have kind' : Stops isInlineBlank (k ++ (p ++ (w ++ e) ++ after)) := kind.stops (by simpa using path')
    have keyword : Stops isInlineBlank ("import".toList ++ (h ++ (k ++ (p ++ (w ++ e)))) ++ after) :=
      (stops_cons _ _ _).2 (by decide)
    refine ⟨[], _, rfl, ⟨[], rfl, rfl, opens⟩, g, q ++ ("import".toList ++ (h ++ (k ++ (p ++ (w ++ e))))), by simp,
      ⟨blank, ?_⟩, q, _, rfl, (takes_qualifiers keyword).2 qualifiers, _, _, rfl, rfl, h, _, rfl,
      ⟨blank', filled, by simpa using kind'⟩, k, _, rfl, (takes_symbolKind (by simpa using path')).2 kind, p, _, rfl,
      (takes_modulePath (by simpa using stops)).2 path, w, e, rfl, rest, ends⟩
    rw [List.append_assoc]
    exact qualifiers.stops keyword

def isImportPart (c : Char) : Bool := isInlineBlank c || isModulePart c || c == '@'

theorem isImportPart_of_isInlineBlank {c : Char} (blank : isInlineBlank c = true) : isImportPart c = true := by
  simp [isImportPart, blank]

theorem isImportPart_of_isModulePart {c : Char} (part : isModulePart c = true) : isImportPart c = true := by
  simp [isImportPart, part]

theorem ne_of_isImportPart {c d : Char} (part : isImportPart c = true) (other : isImportPart d = false) : c ≠ d := by
  rintro rfl
  rw [part] at other
  cases other

theorem isInline_of_isImportPart {c : Char} (part : isImportPart c = true) : isInline c = true :=
  bne_iff_ne.2 (ne_of_isImportPart part (by decide))

theorem Qualifiers.within (qualifiers : Qualifiers u) : Within isImportPart u := by
  have names : ∀ q ∈ importQualifiers, Within isImportPart q.toList := by decide
  induction qualifiers with
  | none => exact within_nil _
  | more member blank _ _ ih =>
      simp only [within_append]
      exact ⟨⟨names _ member, blank.mono fun _ => isImportPart_of_isInlineBlank⟩, ih⟩

theorem SymbolKind.within (kind : SymbolKind u) : Within isImportPart u := by
  have names : ∀ kind ∈ importKinds, Within isImportPart kind.toList := by decide
  rcases kind with rfl | ⟨kind, member, g, rfl, blank, -⟩
  · exact within_nil _
  · rw [within_append]
    exact ⟨names kind member, blank.mono fun _ => isImportPart_of_isInlineBlank⟩

theorem DeclaresImport.split (imports : DeclaresImport u) :
    ∃ front e, u = front ++ e ∧ front ≠ [] ∧ Within isImportPart front ∧ ImportEnd e := by
  obtain ⟨g, q, h, k, p, e, rfl, blank, qualifiers, blank', -, kind, path, rest⟩ := imports
  refine ⟨_, e, rfl, by simp, ?_, rest⟩
  simp only [within_append]
  exact ⟨⟨⟨⟨⟨blank.mono fun _ => isImportPart_of_isInlineBlank, qualifiers.within⟩, by decide⟩,
    blank'.mono fun _ => isImportPart_of_isInlineBlank⟩, kind.within⟩,
    path.within.mono fun _ => isImportPart_of_isModulePart⟩

theorem ImportEnd.inline (rest : ImportEnd u) : Within isInline u := by
  obtain ⟨g, m, h, k, rfl, blank, mark, blank', comment⟩ := rest
  have mark : Within isInline m := by
    rcases mark with rfl | rfl <;> decide
  have comment : Within isInline k := by
    rcases comment with rfl | ⟨r, rfl, inline⟩
    · exact within_nil _
    · rw [within_cons, within_cons]
      exact ⟨by decide, by decide, inline⟩
  simp only [within_append]
  exact ⟨⟨⟨blank.mono fun _ => isInline_of_isInlineBlank, mark⟩, blank'.mono fun _ => isInline_of_isInlineBlank⟩,
    comment⟩

theorem importLine_readsLines : importLine.ReadsLines DeclaresImport where
  inline := by
    intro line imports
    obtain ⟨front, e, rfl, -, part, rest⟩ := imports.split
    rw [within_append]
    exact ⟨part.mono fun _ => isInline_of_isImportPart, rest.inline⟩
  filled := by
    intro imports
    obtain ⟨front, e, empty, filled, -⟩ := imports.split
    exact filled (List.append_eq_nil_iff.1 empty.symm).1
  takes _ _ _ := takes_importLine

theorem emptyCommentLine_readsLines : emptyCommentLine.ReadsLines HoldsEmptyComment where
  inline := by
    rintro _ ⟨g, h, rfl, blank, blank'⟩
    simp only [within_append]
    exact ⟨⟨blank.mono fun _ => isInline_of_isInlineBlank, by decide⟩,
      blank'.mono fun _ => isInline_of_isInlineBlank⟩
  filled := by
    rintro ⟨g, h, empty, -⟩
    simp at empty
  takes before u after := by
    simp only [Takes, reads_emptyCommentLine]
    constructor
    · rintro ⟨_, g, h, e, rfl, -, opens, blank, blank', ends⟩
      exact ⟨opens, g ++ "//".toList ++ h, e, by simp, ⟨g, h, rfl, blank, blank'⟩, ends⟩
    · rintro ⟨opens, _, e, rfl, ⟨g, h, rfl, blank, blank'⟩, ends⟩
      exact ⟨_, g, h, e, by simp, rfl, opens, blank, blank', ends⟩

instance : DecidablePred DeclaresImport := fun line =>
  decidable_of_iff _ (importLine_readsLines.matches_iff line)

instance : DecidablePred HoldsEmptyComment := fun line =>
  decidable_of_iff _ (emptyCommentLine_readsLines.matches_iff line)

/-- Without the production profile a text keeps its lines but for those that hold an empty comment and, under the
embedded profile, those that declare an import. Declarations over several lines are put on one before. -/
theorem rewrite_keepLines (embedded : Bool) (s : List Char) :
    (ruleSet ⟨embedded, false⟩).rewrite s =
      keepLines (fun line => !decide (HoldsEmptyComment line ∨ embedded = true ∧ DeclaresImport line))
        (if embedded then RuleSet.joinDeclarations ';' caseDeclaration s else s) := by
  have comments := emptyCommentLine_readsLines.rewrite
  have imports := importLine_readsLines.rewrite
  cases embedded with
  | false =>
      have passes : (ruleSet ⟨false, false⟩).rewrite s = (drop emptyCommentLine).rewrite s := rfl
      rw [passes, comments]
      simp
  | true =>
      have passes : (ruleSet ⟨true, false⟩).rewrite s = (drop emptyCommentLine).rewrite
          ((drop importLine).rewrite (RuleSet.joinDeclarations ';' caseDeclaration s)) := rfl
      rw [passes, comments, imports, keepLines_keepLines]
      simp

/-- A kind of symbol may be the name of a module. -/
example : DeclaresImport "@testable import struct // all of it".toList ∧ ¬ DeclaresImport "import a b".toList := by
  decide +kernel

end Swift

end SourceBundle
