import SourceBundle.Proofs.Embedded.Declarations
import SourceBundle.Proofs.Embedded.LineFilter

/-!
The structural pass as one pass over the text it starts from. The pass searches the text that it rewrites, but a
rewritten declaration neither starts one nor ends one: it starts with the separator and has an opening parenthesis
first. So the pass takes exactly the declarations of the text it starts from, and leaves none.
-/

namespace SourceBundle

open Text

namespace Text

variable {s : List Char}

theorem ink_onOneLine (s : List Char) : ink (onOneLine s) = ink s := by
  have blank : ∀ g, Within isBlank g → ink g = [] := fun g within =>
    ink_eq_nil.2 (within.mono fun _ => isSpacing_of_isBlank)
  have trimmed : ∀ line, ink (trim line) = ink line := by
    intro line
    obtain ⟨g, front, start⟩ := exists_trimStart line
    obtain ⟨h, back, last⟩ := exists_trimEnd (trimStart line)
    conv_rhs => rw [front, back]
    simp [trim, blank g start, blank h last]
  induction s using line_cases with
  | empty => rfl
  | last w inline => rw [onOneLine_last inline, trimmed]
  | line w s inline ih =>
      rw [onOneLine_newline, onOneLine_last inline, ink_append, ih, trimmed, ink_append,
        ink_cons_spacing (by decide)]

theorem onOneLine_inline (s : List Char) : Within isInline (onOneLine s) := by
  intro c member
  obtain ⟨line, present, inside⟩ := List.mem_flatMap.1 member
  rw [isInline, bne_iff_ne]
  rintro rfl
  exact mark_not_mem_of_mem_cut present (mem_of_mem_trim inside)

theorem oneLine_inline (s : List Char) : Within isInline (RuleSet.oneLine ';' s) := by
  rw [RuleSet.oneLine, within_cons]
  exact ⟨by decide, onOneLine_inline s⟩

end Text

namespace Swift

open Pattern

variable {before : Option Char} {d s u w x y after v out : List Char}

def IsIdentifier (n : List Char) : Prop :=
  ∃ c w, n = c :: w ∧ isIdentifierStart c = true ∧ Within isIdentifierPart w

def Indirection (i : List Char) : Prop :=
  i = [] ∨ ∃ g, i = "indirect".toList ++ g ∧ Within isInlineBlank g ∧ g ≠ []

def CaseHeading (u : List Char) : Prop :=
  ∃ g i h n k, u = g ++ i ++ "case".toList ++ h ++ n ++ k ∧ Within isInlineBlank g ∧ Indirection i ∧
    Within isInlineBlank h ∧ h ≠ [] ∧ IsIdentifier n ∧ Within isInlineBlank k

/-- A case with arguments up to the next parenthesis, a closing one, and a newline among them. -/
def SpansLines (d : List Char) : Prop :=
  ∃ h b, d = h ++ '(' :: (b ++ [')']) ∧ CaseHeading h ∧ Within isInArguments b ∧ '\n' ∈ b

def Declares (before : Option Char) (d : List Char) : Prop := OpensLine before ∧ SpansLines d

theorem takes_indirection (stops : Stops isInlineBlank after) :
    (Pattern.optional (literal "indirect" ++ someGap)).Takes before u after ↔ Indirection u := by
  simp only [takes_optional, takes_append, takes_literal, takes_someGap, Indirection, stops, and_true]
  constructor
  · rintro (⟨_, g, rfl, rfl, blank, filled⟩ | rfl)
    · exact .inr ⟨g, rfl, blank, filled⟩
    · exact .inl rfl
  · rintro (rfl | ⟨g, rfl, blank, filled⟩)
    · exact .inr rfl
    · exact .inl ⟨_, g, rfl, rfl, blank, filled⟩

theorem takes_all {p : Char → Bool} : (all false p).Takes before u after ↔ Within p u ∧ Stops p after := by
  simp [Takes, Reads]

theorem takes_identifier : identifier.Takes before u after ↔ IsIdentifier u ∧ Stops isIdentifierPart after := by
  rw [identifier, takes_append]
  simp only [takes_all, IsIdentifier]
  constructor
  · rintro ⟨_, w, rfl, ⟨_, c, start, rfl, rfl⟩, part, stops⟩
    exact ⟨⟨c, w, rfl, start, part⟩, stops⟩
  · rintro ⟨⟨c, w, rfl, start, part⟩, stops⟩
    exact ⟨[c], w, rfl, ⟨[c], c, start, rfl, rfl⟩, part, stops⟩

theorem IsIdentifier.stops (name : IsIdentifier u) : Stops isInlineBlank (u ++ after) := by
  obtain ⟨c, w, rfl, start, -⟩ := name
  exact (stops_cons _ _ _).2 (isInlineBlank_of_isModulePart (isModulePart_of_isIdentifierStart start))

theorem takes_caseName : caseName.Takes before u after ↔
    ∃ h n k b, u = h ++ n ++ k ++ '(' :: b ∧ Within isInlineBlank h ∧ h ≠ [] ∧ IsIdentifier n ∧ Within isInlineBlank k ∧
      Within (fun c => isInArguments c && c != '\n') b ∧ Stops (fun c => isInArguments c && c != '\n') after := by
  simp only [caseName, takes_append, takes_someGap, takes_identifier, takes_gap, takes_literal, takes_all]
  constructor
  · rintro ⟨_, b, rfl, ⟨_, _, rfl, ⟨_, k, rfl, ⟨h, n, rfl, ⟨blank, filled, -⟩, name, -⟩, blank', -⟩, rfl⟩, inside, stops⟩
    exact ⟨h, n, k, b, by simp, blank, filled, name, blank', inside, stops⟩
  · rintro ⟨h, n, k, b, rfl, blank, filled, name, blank', inside, stops⟩
    have opens : ∀ p : Char → Bool, p '(' = false → Stops p ("(".toList ++ (b ++ after)) :=
      fun _ here => (stops_cons _ _ _).2 here
    refine ⟨h ++ n ++ k ++ ['('], b, by simp, ⟨h ++ n ++ k, ['('], rfl, ⟨h ++ n, k, rfl, ⟨h, n, rfl,
      ⟨blank, filled, name.stops⟩, name, ?_⟩, blank', opens _ (by decide)⟩, rfl⟩, inside, stops⟩
    exact stops_blank (fun _ here => by
      have part := isModulePart_of_isInlineBlank here
      rw [isModulePart, Bool.or_eq_false_iff] at part
      exact part.1) blank' (opens _ (by decide))

theorem takes_caseRest : caseRest.Takes before u after ↔ ∃ b, u = '\n' :: (b ++ [')']) ∧ Within isInArguments b := by
  simp only [caseRest, newline, takes_append, takes_all, takes_literal]
  constructor
  · rintro ⟨_, _, rfl, ⟨_, rfl, rfl⟩, b, _, rfl, ⟨inside, -⟩, rfl⟩
    exact ⟨b, rfl, inside⟩
  · rintro ⟨b, rfl, inside⟩
    exact ⟨['\n'], b ++ [')'], rfl, ⟨_, rfl, rfl⟩, b, [')'], rfl, ⟨inside, (stops_cons _ _ _).2 rfl⟩, rfl⟩

theorem takes_caseDeclaration : caseDeclaration.Takes before u after ↔ Declares before u := by
  simp only [caseDeclaration_eq, takes_append, takes_gap, takes_literal, takes_caseRest]
  constructor
  · rintro ⟨_, _, rfl, ⟨_, rfl, rfl, opens⟩, g, _, rfl, ⟨blank, -⟩, i, _, rfl, indirect, _, _, rfl, rfl, _, _, rfl,
      name, b', rfl, inside'⟩
    obtain ⟨h, n, k, b, rfl, blank', filled, name, blank'', inside, -⟩ := takes_caseName.1 name
    have stops : Stops isInlineBlank ("case".toList ++ (h ++ n ++ k ++ '(' :: b ++ '\n' :: (b' ++ [')'])) ++ after) :=
      (stops_cons _ _ _).2 (by decide)
    refine ⟨opens, g ++ i ++ "case".toList ++ h ++ n ++ k, b ++ '\n' :: b', by simp, ⟨g, i, h, n, k, rfl, blank,
      (takes_indirection stops).1 indirect, blank', filled, name, blank''⟩, ?_, by simp⟩
    rw [within_append, within_cons]
    refine ⟨inside.mono fun c here => ?_, by decide, inside'⟩
    rw [Bool.and_eq_true] at here
    exact here.1
  · rintro ⟨opens, _, b, rfl, ⟨g, i, h, n, k, rfl, blank, indirect, blank', filled, name, blank''⟩, inside, broken⟩
    obtain ⟨p, q, rfl, first, stops⟩ := exists_run isInline b
    obtain ⟨r, rfl⟩ : ∃ r, q = '\n' :: r := by
      cases q with
      | nil =>
          rw [List.append_nil] at broken
          exact absurd (first _ broken) (by decide)
      | cons c r =>
          obtain rfl : c = '\n' := by simpa [isInline] using stops
          exact ⟨r, rfl⟩
    rw [within_append, within_cons] at inside
    have word : ∀ r, Stops isInlineBlank ("case".toList ++ r) := fun _ => (stops_cons _ _ _).2 (by decide)
    have start : ∀ r, Stops isInlineBlank (i ++ ("case".toList ++ r)) := by
      intro r
      rcases indirect with rfl | ⟨w, rfl, -⟩
      · exact word r
      · exact (stops_cons _ _ _).2 (by decide)
    refine ⟨[], _, rfl, ⟨[], rfl, rfl, opens⟩, g,
      i ++ ("case".toList ++ (h ++ n ++ k ++ '(' :: p ++ '\n' :: (r ++ [')']))), by simp, ⟨blank, ?_⟩, i, _, rfl,
      (takes_indirection (word _)).2 indirect, _, _, rfl, rfl, _, _, rfl,
      takes_caseName.2 ⟨h, n, k, p, rfl, blank', filled, name, blank'', ?_, ?_⟩, r, rfl, inside.2.2⟩
    · rw [List.append_assoc i]
      exact start _
    · intro c member
      rw [Bool.and_eq_true]
      exact ⟨inside.1 c member, first c member⟩
    · exact (stops_cons _ _ _).2 (by decide)

theorem reads_caseDeclaration_iff : caseDeclaration.Reads before u after v ↔ v = u ∧ Declares before u := by
  constructor
  · intro reads
    exact ⟨(reads_caseDeclaration reads).1, takes_caseDeclaration.1 ⟨v, reads⟩⟩
  · rintro ⟨rfl, declares⟩
    obtain ⟨w, reads⟩ : caseDeclaration.Takes before v after := takes_caseDeclaration.2 declares
    rwa [(reads_caseDeclaration reads).1] at reads

theorem joined_unique {out' : List Char} (joined : RuleSet.Joined ';' caseDeclaration before s out)
    (joined' : RuleSet.Joined ';' caseDeclaration before s out') : out = out' := by
  induction joined generalizing out' with
  | done =>
      generalize empty : [] = s at joined'
      cases joined' with
      | done => rfl
      | join reads _ =>
          exact absurd (List.append_eq_nil_iff.1 empty.symm).1 (caseDeclaration_advances _ _ _ _ reads)
      | skip => cases empty
  | @join before u after v out reads _ ih =>
      obtain ⟨rfl, -⟩ := reads_caseDeclaration_iff.1 reads
      generalize split : v ++ after = s at joined'
      cases joined' with
      | done =>
          exact absurd (List.append_eq_nil_iff.1 split).1 (caseDeclaration_advances _ _ _ _ reads)
      | join reads' later =>
          obtain ⟨rfl, -⟩ := reads_caseDeclaration_iff.1 reads'
          obtain rfl := caseDeclaration_unique reads reads' split
          obtain rfl := List.append_cancel_left split
          rw [ih later]
      | skip fails _ => exact absurd reads (fails _ _ _ split.symm)
  | @skip before c s out fails _ ih =>
      generalize split : c :: s = z at joined'
      cases joined' with
      | done => cases split
      | join reads _ => exact absurd reads (fails _ _ _ split)
      | skip _ later =>
          obtain ⟨rfl, rfl⟩ := List.cons.inj split
          rw [ih later]

inductive Stretch where
  | declaration (d : List Char)
  | other (c : Char)

def Stretch.source : Stretch → List Char
  | declaration d => d
  | other c => [c]

def Stretch.joined : Stretch → List Char
  | declaration d => RuleSet.oneLine ';' d
  | other c => [c]

/-- The stretches that are declarations are all the declarations of the text, each in its place. -/
def Finds (before : Option Char) (s : List Char) (stretches : List Stretch) : Prop :=
  ∀ x d y, s = x ++ (d ++ y) → (Declares (lastOf before x) d ↔
    ∃ earlier later, stretches = earlier ++ .declaration d :: later ∧ x = earlier.flatMap Stretch.source)

theorem not_declares_nil : ¬ Declares before [] := by
  rintro ⟨-, h, b, split, -⟩
  simp at split

theorem finds_nil : Finds before [] [] := by
  intro x d y split
  obtain rfl : d = [] := by simp_all
  simp [not_declares_nil]

theorem Finds.declaration {stretches : List Stretch} (reads : caseDeclaration.Reads before u after v)
    (later : Finds (lastOf before u) after stretches) : Finds before (u ++ after) (.declaration u :: stretches) := by
  intro x d y split
  constructor
  · intro declares
    have reads' : caseDeclaration.Reads (lastOf before x) d y d := reads_caseDeclaration_iff.2 ⟨rfl, declares⟩
    have inside : ∀ r, after = r ++ (d ++ y) → x = u ++ r →
        ∃ earlier rest, Stretch.declaration u :: stretches = earlier ++ .declaration d :: rest ∧
          x = earlier.flatMap Stretch.source := by
      rintro r rest rfl
      rw [lastOf_append] at declares
      obtain ⟨earlier, last, rfl, rfl⟩ := (later r d y rest).1 declares
      exact ⟨.declaration u :: earlier, last, rfl, rfl⟩
    rcases List.append_eq_append_iff.1 split with ⟨r, rfl, rest⟩ | ⟨r, rfl, rest⟩
    · exact inside r rest rfl
    · rcases caseDeclaration_apart reads reads' rest.symm with rfl | rfl
      · obtain rfl : r = d := caseDeclaration_unique reads reads' rest.symm
        exact ⟨[], stretches, rfl, rfl⟩
      · exact inside [] rest.symm (by simp)
  · rintro ⟨earlier, rest, same, rfl⟩
    cases earlier with
    | nil =>
        obtain ⟨first, -⟩ := List.cons.inj same
        obtain rfl : u = d := by simpa using first
        exact (reads_caseDeclaration_iff.1 reads).2
    | cons first earlier =>
        obtain ⟨rfl, rfl⟩ := List.cons.inj same
        rw [List.flatMap_cons, List.append_assoc] at split
        rw [List.flatMap_cons, lastOf_append]
        exact (later _ d y (List.append_cancel_left split)).2 ⟨earlier, rest, rfl, rfl⟩

theorem Finds.other {stretches : List Stretch} {c : Char} (fails : caseDeclaration.Fails before (c :: s))
    (later : Finds (some c) s stretches) : Finds before (c :: s) (.other c :: stretches) := by
  intro x d y split
  constructor
  · intro declares
    cases x with
    | nil => exact absurd (reads_caseDeclaration_iff.2 ⟨rfl, declares⟩) (fails d y d split)
    | cons e x =>
        obtain ⟨rfl, rest⟩ := List.cons.inj split
        obtain ⟨earlier, last, rfl, rfl⟩ := (later x d y rest).1 declares
        exact ⟨.other c :: earlier, last, rfl, rfl⟩
  · rintro ⟨earlier, rest, same, rfl⟩
    cases earlier with
    | nil => cases (List.cons.inj same).1
    | cons first earlier =>
        obtain ⟨rfl, rfl⟩ := List.cons.inj same
        exact (later _ d y (List.cons.inj split).2).2 ⟨earlier, rest, rfl, rfl⟩

/-- The pass puts every declaration of the text that it starts from on one line, and keeps the rest as it is. -/
theorem joined_stretches (joined : RuleSet.Joined ';' caseDeclaration before s out) :
    ∃ stretches : List Stretch, s = stretches.flatMap Stretch.source ∧ out = stretches.flatMap Stretch.joined ∧
      Finds before s stretches := by
  induction joined with
  | done => exact ⟨[], rfl, rfl, finds_nil⟩
  | @join before u after v out reads _ ih =>
      obtain ⟨ends, ends'⟩ := lastOf_oneLine reads before
      obtain ⟨stretches, rfl, rfl, finds⟩ := ih
      obtain ⟨rfl, -⟩ := reads_caseDeclaration_iff.1 reads
      rw [ends, ← ends'] at finds
      exact ⟨.declaration v :: stretches, rfl, rfl, finds.declaration reads⟩
  | @skip before c s out fails _ ih =>
      obtain ⟨stretches, rfl, rfl, finds⟩ := ih
      exact ⟨.other c :: stretches, rfl, rfl, finds.other fails⟩

theorem joined_prefix (joined : RuleSet.Joined ';' caseDeclaration before s out) (same : out = w ++ y) :
    (∃ z, s = w ++ z) ∨ ∃ p q d r, w = p ++ ';' :: q ∧ q ++ y = onOneLine d ++ r ∧ SpansLines d := by
  induction joined generalizing w with
  | done =>
      obtain ⟨rfl, rfl⟩ := List.append_eq_nil_iff.1 same.symm
      exact .inl ⟨[], rfl⟩
  | @join before u after v out reads _ _ =>
      obtain ⟨rfl, -, spans⟩ := reads_caseDeclaration_iff.1 reads
      cases w with
      | nil => exact .inl ⟨_, rfl⟩
      | cons c w =>
          obtain ⟨rfl, rest⟩ := List.cons.inj same
          exact .inr ⟨[], w, v, out, rfl, rest.symm, spans⟩
  | @skip before c s out _ _ ih =>
      cases w with
      | nil => exact .inl ⟨_, rfl⟩
      | cons d w =>
          obtain ⟨rfl, rest⟩ := List.cons.inj same
          rcases ih rest with ⟨z, rfl⟩ | ⟨p, q, d, r, rfl, behind, spans⟩
          · exact .inl ⟨z, rfl⟩
          · exact .inr ⟨c :: p, q, d, r, rfl, behind, spans⟩

theorem CaseHeading.inside (heading : CaseHeading u) : Within isHeading u ∧ ';' ∉ u := by
  obtain ⟨g, i, h, n, k, rfl, blank, indirect, blank', -, ⟨c, w, rfl, start, part⟩, blank''⟩ := heading
  have absent : ∀ {g}, Within isInlineBlank g → ';' ∉ g := fun within member => absurd (within _ member) (by decide)
  have indirect : Within isHeading i ∧ ';' ∉ i := by
    rcases indirect with rfl | ⟨g, rfl, blank, -⟩
    · simp
    · rw [within_append, List.mem_append, not_or]
      exact ⟨⟨by decide, blank.mono fun _ => isHeading_of_isInlineBlank⟩, by decide, absent blank⟩
  have start' : c ≠ ';' := by
    rintro rfl
    exact absurd start (by decide)
  have part' : ';' ∉ w := fun member => absurd (part _ member) (by decide)
  constructor
  · simp only [within_append, within_cons]
    exact ⟨⟨⟨⟨⟨blank.mono fun _ => isHeading_of_isInlineBlank, indirect.1⟩, by decide⟩,
      blank'.mono fun _ => isHeading_of_isInlineBlank⟩, isHeading_of (by decide) start,
      part.mono fun _ => isHeading_of (by decide)⟩, blank''.mono fun _ => isHeading_of_isInlineBlank⟩
  · simp only [List.mem_append, List.mem_cons, not_or]
    exact ⟨⟨⟨⟨⟨absent blank, indirect.2⟩, by decide⟩, absent blank'⟩, Ne.symm start', part'⟩, absent blank''⟩

theorem SpansLines.not_closes {b y z : List Char} (spans : SpansLines d) (inside : Within isInArguments b) :
    b ++ ')' :: y ≠ onOneLine d ++ z := by
  obtain ⟨h, a, rfl, heading, -⟩ := spans
  intro same
  have same := congrArg ink same
  have within : ∀ {w}, Within isInArguments w → Within isInArguments (ink w) :=
    fun here c member => here c (List.mem_of_mem_filter member)
  have heading : Within isInArguments h := heading.inside.1.mono fun c here => by
    rw [isHeading, Bool.and_eq_true] at here
    exact here.1
  rw [ink_append, ink_append, ink_onOneLine, ink_append, ink_cons_solid (by decide), ink_cons_solid (by decide),
    List.append_assoc, List.cons_append] at same
  obtain ⟨-, parenthesis⟩ := run_unique same (within inside) (within heading) ((stops_cons _ _ _).2 rfl)
    ((stops_cons _ _ _).2 rfl)
  exact absurd (List.cons.inj parenthesis).1 (by decide)

theorem mark_inside {mark e : Char} {b p q : List Char} (front : mark ∉ x) (other : mark ≠ e)
    (same : x ++ (b ++ [e]) = p ++ mark :: q) : ∃ m k, b = m ++ mark :: k ∧ q = k ++ [e] := by
  have behind : ∀ m, b ++ [e] = m ++ mark :: q → ∃ m k, b = m ++ mark :: k ∧ q = k ++ [e] := by
    intro m split
    rcases List.eq_nil_or_concat q with rfl | ⟨k, f, rfl⟩
    · exact absurd (List.append_inj' split rfl).2 (by simp [Ne.symm other])
    · rw [List.concat_eq_append] at split
      have split : b ++ [e] = (m ++ mark :: k) ++ [f] := by simpa using split
      obtain ⟨rfl, last⟩ := List.append_inj' split rfl
      obtain rfl : e = f := by simpa using last
      exact ⟨m, k, rfl, by simp⟩
  rcases List.append_eq_append_iff.1 same with ⟨m, rfl, rest⟩ | ⟨m, rfl, rest⟩
  · exact behind m rest
  · cases m with
    | nil => exact behind [] rest.symm
    | cons c m =>
        obtain ⟨rfl, -⟩ := List.cons.inj rest
        simp at front

theorem joined_declaration (joined : RuleSet.Joined ';' caseDeclaration before s out) (same : out = d ++ y)
    (spans : SpansLines d) : ∃ z, s = d ++ z := by
  rcases joined_prefix joined same with copied | ⟨p, q, e, r, here, behind, spans'⟩
  · exact copied
  · exfalso
    obtain ⟨h, b, rfl, heading, inside, -⟩ := spans
    have unmarked : ';' ∉ h ++ ['('] := by
      rw [List.mem_append, not_or]
      exact ⟨heading.inside.2, by decide⟩
    -- The semicolon is none of the heading, so the rewritten declaration starts among the arguments.
    obtain ⟨m, k, rfl, rfl⟩ := mark_inside (e := ')') unmarked (by decide) (by simpa using here)
    rw [within_append, within_cons] at inside
    exact spans'.not_closes inside.2.2 (by simpa using behind)

theorem SpansLines.head (spans : SpansLines d) : ∀ c ∈ d.head?, c ≠ ';' := by
  obtain ⟨h, b, rfl, heading, -⟩ := spans
  have unmarked := heading.inside.2
  cases h with
  | nil => simp
  | cons c h =>
      rw [List.mem_cons, not_or] at unmarked
      simpa using Ne.symm unmarked.1

/-- The pass leaves no declaration in the text. -/
theorem joined_undeclared (joined : RuleSet.Joined ';' caseDeclaration before s out) (same : out = x ++ (d ++ y)) :
    ¬ Declares (lastOf before x) d := by
  induction joined generalizing x with
  | done =>
      obtain ⟨rfl, rest⟩ := List.append_eq_nil_iff.1 same.symm
      rw [(List.append_eq_nil_iff.1 rest).1]
      exact not_declares_nil
  | @join before u after v out reads _ ih =>
      rintro ⟨opens, spans⟩
      have inline := oneLine_inline v
      rcases List.append_eq_append_iff.1 same with ⟨r, rfl, rest⟩ | ⟨r, split, rest⟩
      · rw [lastOf_append] at opens
        exact ih rest ⟨opens, spans⟩
      · -- A rewritten declaration has no newline, so only its own start may be a line start.
        cases x with
        | nil =>
            obtain ⟨c, e, rfl⟩ : ∃ c e, d = c :: e := by
              cases d with
              | nil => exact absurd ⟨opens, spans⟩ not_declares_nil
              | cons c e => exact ⟨c, e, rfl⟩
            exact spans.head c rfl (List.cons.inj same).1.symm
        | cons c x =>
            rw [split, within_append] at inline
            exact not_opensLine (by simp) inline.1 opens
  | @skip before c s out fails later ih =>
      rintro ⟨opens, spans⟩
      cases x with
      | nil =>
          have same : c :: out = d ++ y := same
          obtain ⟨z, copied⟩ := joined_declaration (.skip fails later) same spans
          exact fails d z d copied (reads_caseDeclaration_iff.2 ⟨rfl, opens, spans⟩)
      | cons e x =>
          obtain ⟨rfl, rest⟩ := List.cons.inj same
          exact ih rest ⟨opens, spans⟩

end Swift

end SourceBundle
