import SourceBundle.Proofs.Standing
import SourceBundle.Proofs.Production.FixedPoint

/-!
The replacements as moves of blanks, with what stands beside the blanks: no rule but those for operators, braces,
colons and commas closes a gap, a space is kept behind attributes, keywords and the like only, and a semicolon is
written in front of an attribute or a statement keyword only.
-/

namespace SourceBundle.Swift

open Pattern Text

variable {marks : List String} {follows starts : List Char → Prop} {before : Option Char} {u after v : List Char}
  {x g h y s : List Char} {i j : Nat}

theorem shifted_before (follows starts : List Char → Prop) {mark : String} (member : mark ∈ marks)
    (blank : Within isBlank g) :
    Shifted marks follows starts (g ++ (mark.toList ++ y)) (mark.toList ++ y) := by
  by_cases empty : g = []
  · subst empty
    exact .refl
  · have move : Move marks follows starts [] g [] (mark.toList ++ y) :=
      .close blank empty ⟨mark, member, .inr (List.prefix_append _ _)⟩
    simpa using move.shifted

theorem shifted_after (follows starts : List Char → Prop) {mark : String} (member : mark ∈ marks)
    (blank : Within isBlank g) :
    Shifted marks follows starts (mark.toList ++ (g ++ y)) (mark.toList ++ y) := by
  by_cases empty : g = []
  · subst empty
    exact .refl
  · have move : Move marks follows starts mark.toList g [] y :=
      .close blank empty ⟨mark, member, .inl (List.suffix_refl _)⟩
    simpa using move.shifted

theorem shifted_space (blank : Within isBlank g) (nonempty : g ≠ []) (blank' : Within isBlank h) (kept : h ≠ [])
    (place : follows x ∨ "else".toList <+: y) : Shifted marks follows starts (x ++ (g ++ y)) (x ++ (h ++ y)) := by
  have move : Move marks follows starts x g h y := .space blank nonempty blank' kept place
  simpa using move.shifted

theorem shifted_separate (blank : Within isBlank g) (nonempty : g ≠ []) (opens : OpensLine (lastOf before g))
    (next : starts y) : Shifted marks follows starts (g ++ y) (';' :: y) := by
  have move : Move marks follows starts [] g [';'] y := .separate blank (newline_mem nonempty opens) next
  simpa using move.shifted

/-- How an attribute is spelled: on one line, and what follows its first character are letters, or it ends with its
arguments. -/
structure AttributeSpelling (a : List Char) : Prop where
  inline : Within isInline a
  shape : ∃ s, a = '@' :: s ∧ (Within isIdentifierPart s ∨ ∃ r, s = r ++ [')'])

theorem reads_argument_inline (reads : argument.Reads before u after v) : Within isInline u := by
  simp only [argument, reads_append, reads_literal, Reads] at reads
  obtain ⟨_, _, _, _, rfl, rfl, ⟨_, w, _, _, rfl, rfl, ⟨rfl, rfl⟩, inside, -⟩, rfl, rfl⟩ := reads
  simp only [within_append]
  refine ⟨⟨by decide, inside.mono fun c here => ?_⟩, by decide⟩
  rw [Bool.and_eq_true] at here
  exact here.2

theorem attributeUse_spelling (reads : attributeUse.Reads before u after v) : AttributeSpelling u := by
  have plain : ∀ (s : String) {at' : Option Char} {name after written : List Char},
      Within isIdentifierPart s.toList → (literal s).Reads at' name after written →
      Within isInline name ∧ (Within isIdentifierPart name ∨ ∃ r, name = r ++ [')']) := by
    rintro s at' _ after _ letters ⟨rfl, rfl⟩
    refine ⟨letters.mono fun c part => ?_, .inl letters⟩
    rw [isInline, bne_iff_ne]
    rintro rfl
    exact absurd part (by decide)
  have called : ∀ (s : String) {at' : Option Char} {name after written : List Char},
      Within isInline s.toList → (literal s ++ argument).Reads at' name after written →
      Within isInline name ∧ (Within isIdentifierPart name ∨ ∃ r, name = r ++ [')']) := by
    intro s at' name after written inline reads
    obtain ⟨_, _, _, _, rfl, rfl, ⟨rfl, rfl⟩, inner⟩ := (reads_append _ _ _ _ _ _).1 reads
    obtain ⟨rfl, w, rfl⟩ := reads_argument inner
    refine ⟨?_, .inr ⟨s.toList ++ w, by simp⟩⟩
    rw [within_append]
    exact ⟨inline, reads_argument_inline inner⟩
  obtain ⟨_, name, _, written, rfl, rfl, ⟨rfl, rfl⟩, named⟩ := (reads_append _ _ _ _ _ _).1 reads
  obtain ⟨p, member, chosen⟩ := (reads_anyOf (by simp)).1 named
  have spelled : Within isInline name ∧ (Within isIdentifierPart name ∨ ∃ r, name = r ++ [')']) := by
    simp only [List.mem_cons, List.not_mem_nil, or_false] at member
    rcases member with rfl | rfl | rfl | rfl | rfl | rfl | rfl | rfl | rfl | rfl | rfl | rfl | rfl |
      rfl | rfl | rfl | rfl | rfl | rfl | rfl | rfl | rfl | rfl | rfl | rfl | rfl
    all_goals first
      | exact called _ (by decide) chosen
      | exact plain _ (by decide) chosen
  exact ⟨by simpa using ⟨by decide, spelled.1⟩, name, rfl, spelled.2⟩

/-- The texts behind which the rules up to the guards keep a space. -/
def BeforeSpace (x : List Char) : Prop :=
  (∃ a, AttributeSpelling a ∧ a <:+ x) ∨ "guard".toList <:+ x ∨ "\x7breturn".toList <:+ x

theorem atEnd_beforeSpace : AtEnd BeforeSpace := by
  rintro w x (⟨a, spelling, last⟩ | last | last)
  · exact .inl ⟨a, spelling, last.trans (List.suffix_append w x)⟩
  · exact .inr (.inl (last.trans (List.suffix_append w x)))
  · exact .inr (.inr (last.trans (List.suffix_append w x)))

def endsBeforeSpace (c : Char) : Bool := isIdentifierPart c || c == '@' || c == ')'

theorem isBlank_of_endsBeforeSpace {c : Char} (ends : endsBeforeSpace c = true) : isBlank c = false := by
  by_contra blank
  have other : endsBeforeSpace c = false :=
    of_isBlank (P := fun c => endsBeforeSpace c = false) (by decide +kernel) (by simpa using blank)
  simp [ends] at other

theorem BeforeSpace.last (place : BeforeSpace x) : ∃ c ∈ x.getLast?, endsBeforeSpace c = true := by
  obtain ⟨a, ⟨c, last, ends⟩, w, rfl⟩ : ∃ a, (∃ c ∈ a.getLast?, endsBeforeSpace c = true) ∧ a <:+ x := by
    rcases place with ⟨a, ⟨-, s, rfl, letters | ⟨r, rfl⟩⟩, last⟩ | last | last
    · refine ⟨_, ?_, last⟩
      rcases List.eq_nil_or_concat s with rfl | ⟨s, c, rfl⟩
      · exact ⟨'@', by simp, by decide⟩
      · rw [List.concat_eq_append] at letters ⊢
        exact ⟨c, List.getLast?_concat (l := '@' :: s), by simp [endsBeforeSpace, letters c (by simp)]⟩
    · exact ⟨_, ⟨')', List.getLast?_concat (l := '@' :: r), by decide⟩, last⟩
    · exact ⟨_, by decide, last⟩
    · exact ⟨_, by decide, last⟩
  exact ⟨c, List.mem_getLast?_append_of_mem_getLast? last, ends⟩

def AttributeNext (y : List Char) : Prop := "@".toList <+: y

def KeywordNext (y : List Char) : Prop := ∃ word ∈ statementKeywords, ∃ z, y = word.toList ++ z ∧ Stops isWord z

def DefaultNext (y : List Char) : Prop := ∃ k z, y = "default".toList ++ (k ++ ':' :: z) ∧ Within isBlank k

/-- The texts behind which the rules after those for statements keep a space end with one of these letters. -/
def BehindKeyword (x : List Char) : Prop := ∃ c ∈ x.getLast?, c ∈ ['n', 'h', 'e', 't']

theorem atEnd_behindKeyword : AtEnd BehindKeyword := by
  rintro w x ⟨c, last, letter⟩
  exact ⟨c, List.mem_getLast?_append_of_mem_getLast? last, letter⟩

theorem tightOperator_shifts {operators : List String} (filled : operators ≠ []) (included : operators ⊆ marks) :
    (tightOperator operators).Shifts marks follows starts := by
  intro before u after v reads
  obtain ⟨g, operator, h, member, rfl, rfl, blank, -, -, blank', -⟩ := (reads_tightOperator filled).1 reads
  have left := shifted_before follows starts (included member) blank (y := h ++ after)
  have right := shifted_after follows starts (included member) blank' (y := after)
  simpa using left.trans right

theorem attributeSpace_shifts : attributeSpace.Shifts marks BeforeSpace starts := by
  intro before u after v reads
  obtain ⟨a, h, _, _, rfl, rfl, use, space⟩ := (reads_append _ _ _ _ _ _).1 reads
  have spelling := attributeUse_spelling use
  obtain ⟨rfl, -⟩ := reads_attributeUse use
  obtain ⟨blank, nonempty, -, rfl⟩ := reads_oneSpace.1 space
  simpa using shifted_space (h := [' ']) (y := after) blank nonempty (by decide) (by simp)
    (.inl (.inl ⟨_, spelling, List.suffix_refl _⟩))

theorem attributeLine_shifts : attributeLine.Shifts marks BeforeSpace AttributeNext := by
  intro before u after v reads
  obtain ⟨_, h, _, _, rfl, rfl, lower, space⟩ := (reads_append _ _ _ _ _ _).1 reads
  obtain ⟨g, a, _, _, rfl, rfl, separator, use⟩ := (reads_append _ _ _ _ _ _).1 lower
  obtain ⟨rfl, ⟨s, rfl⟩, -⟩ := reads_attributeUse use
  obtain ⟨blank, nonempty, -, opens, rfl⟩ := reads_separated.1 separator
  obtain ⟨blank', nonempty', -, rfl⟩ := reads_oneSpace.1 space
  have left : Shifted marks BeforeSpace AttributeNext (g ++ ('@' :: s ++ (h ++ after)))
      (';' :: ('@' :: s ++ (h ++ after))) :=
    shifted_separate blank nonempty opens ⟨s ++ (h ++ after), rfl⟩
  have right : Shifted marks BeforeSpace AttributeNext (';' :: '@' :: s ++ (h ++ after))
      (';' :: '@' :: s ++ ([' '] ++ after)) :=
    shifted_space blank' nonempty' (by decide) (by simp)
      (.inl (.inl ⟨_, attributeUse_spelling use, List.suffix_cons _ _⟩))
  simpa using left.trans (by simpa using right)

theorem blanksAfter_shifts {mark : String} (member : mark ∈ marks) :
    (blanksAfter mark).Shifts marks follows starts := by
  intro before u after v reads
  obtain ⟨g, rfl, rfl, blank, -⟩ := reads_blanksAfter.1 reads
  simpa using shifted_after follows starts member blank (y := after)

theorem closeBrace_shifts (member : "\x7d" ∈ marks) : closeBrace.Shifts marks follows starts := by
  intro before u after v reads
  obtain ⟨g, rfl, rfl, blank, -⟩ := reads_closeBrace.1 reads
  simpa using shifted_before follows starts member blank (y := after)

theorem condition_shifted {c d : List Char} (condition : Condition c d) :
    Shifted marks BeforeSpace starts ("guard".toList ++ (c ++ ("else".toList ++ y)))
      ("guard".toList ++ (d ++ ("else".toList ++ y))) := by
  have guarded : BeforeSpace "guard".toList := .inr (.inl (List.suffix_refl _))
  cases condition with
  | @text g x h e blank nonempty _ _ blank' nonempty' =>
      have right : Shifted marks BeforeSpace starts
          ("guard".toList ++ (g ++ (x ++ [e])) ++ (h ++ ("else".toList ++ y)))
          ("guard".toList ++ (g ++ (x ++ [e])) ++ ([' '] ++ ("else".toList ++ y))) :=
        shifted_space blank' nonempty' (by decide) (by simp) (.inr (List.prefix_append _ _))
      have left : Shifted marks BeforeSpace starts
          ("guard".toList ++ (g ++ (x ++ [e] ++ [' '] ++ ("else".toList ++ y))))
          ("guard".toList ++ ([' '] ++ (x ++ [e] ++ [' '] ++ ("else".toList ++ y)))) :=
        shifted_space blank nonempty (by decide) (by simp) (.inl guarded)
      exact Relation.ReflTransGen.trans (by simpa using right) (by simpa using left)
  | @blank g h i blank nonempty inline blank' nonempty' =>
      have space : isBlank ' ' = true := by decide
      exact shifted_space (by simp [blank, blank', isBlank_of_isInlineBlank inline]) (by simp)
        (by simp [space, isBlank_of_isInlineBlank inline]) (by simp) (.inl guarded)

theorem guardReturn_shifts (member : "\x7b" ∈ marks) : guardReturn.Shifts marks BeforeSpace starts := by
  intro before u after v reads
  obtain ⟨c, d, p, q, rfl, rfl, condition, blank, blank'⟩ := reads_guardReturn reads
  have inner := (shifted_after BeforeSpace starts member blank'
    (y := "return".toList ++ after)).prepend atEnd_beforeSpace ("guard".toList ++ c ++ "else".toList ++ p)
  have outer := (shifted_before BeforeSpace starts member blank
    (y := "return".toList ++ after)).prepend atEnd_beforeSpace ("guard".toList ++ c ++ "else".toList)
  have head : Shifted marks BeforeSpace starts _ _ :=
    condition_shifted (y := "\x7breturn".toList ++ after) condition
  refine Relation.ReflTransGen.trans (by simpa using inner) (Relation.ReflTransGen.trans (by simpa using outer) ?_)
  simpa using head

theorem guardBare_shifts (opens : "\x7b" ∈ marks) (closes : "\x7d" ∈ marks) :
    guardBare.Shifts marks BeforeSpace starts := by
  intro before u after v reads
  obtain ⟨w, z, g, rfl, rfl, blank, head⟩ := reads_guardBare reads
  have left : Shifted marks BeforeSpace starts _ _ := guardReturn_shifts opens _ _ _ _ head
  have right := (shifted_before BeforeSpace starts closes blank
    (y := after)).prepend atEnd_beforeSpace z
  exact Relation.ReflTransGen.trans (by simpa using left) (by simpa using right)

theorem outcome_shifted {c d : List Char} (outcome : Outcome c d) (closes : "\x7d" ∈ marks)
    (returned : "\x7breturn".toList <:+ x) :
    Shifted marks BeforeSpace starts (x ++ (c ++ ('\x7d' :: y))) (x ++ (d ++ ('\x7d' :: y))) := by
  have place : BeforeSpace x := .inr (.inr returned)
  cases outcome with
  | @text g z h blank nonempty _ _ blank' =>
      have right := (shifted_before BeforeSpace starts closes blank'
        (y := y)).prepend atEnd_beforeSpace (x ++ g ++ z)
      have left : Shifted marks BeforeSpace starts (x ++ (g ++ (z ++ '\x7d' :: y)))
          (x ++ ([' '] ++ (z ++ '\x7d' :: y))) :=
        shifted_space blank nonempty (by decide) (by simp) (.inl place)
      exact Relation.ReflTransGen.trans (by simpa using right) (by simpa using left)
  | @blank g h i blank nonempty inline blank' =>
      have space : isBlank ' ' = true := by decide
      exact shifted_space (by simp [blank, blank', isBlank_of_isInlineBlank inline]) (by simp)
        (by simp [space, isBlank_of_isInlineBlank inline]) (by simp) (.inl place)

theorem guardResult_shifts (opens : "\x7b" ∈ marks) (closes : "\x7d" ∈ marks) :
    guardResult.Shifts marks BeforeSpace starts := by
  intro before u after v reads
  obtain ⟨w, z, g, h, rfl, rfl, outcome, head⟩ := reads_guardResult reads
  have left : Shifted marks BeforeSpace starts _ _ := guardReturn_shifts opens _ _ _ _ head
  obtain ⟨c, d, p, q, rfl, rfl, -⟩ := reads_guardReturn head
  have returned : "\x7breturn".toList <:+ "guard".toList ++ d ++ "else\x7breturn".toList :=
    ⟨"guard".toList ++ d ++ "else".toList, by simp⟩
  have right : Shifted marks BeforeSpace starts _ _ := outcome_shifted (y := after) outcome closes returned
  exact Relation.ReflTransGen.trans (by simpa using left) (by simpa using right)

theorem keywordLine_shifts : keywordLine.Shifts marks follows KeywordNext := by
  intro before u after v reads
  obtain ⟨g, word, member, rfl, rfl, blank, nonempty, opens, stops⟩ := reads_keywordLine.1 reads
  have move : Shifted marks follows KeywordNext (g ++ (word.toList ++ after)) (';' :: (word.toList ++ after)) :=
    shifted_separate blank nonempty opens ⟨word, member, after, rfl, stops⟩
  simpa using move

theorem defaultLine_shifts : defaultLine.Shifts marks follows DefaultNext := by
  intro before u after v reads
  obtain ⟨g, h, rfl, rfl, blank, nonempty, opens, blank'⟩ := reads_defaultLine.1 reads
  have move : Shifted marks follows DefaultNext (g ++ ("default".toList ++ (h ++ ':' :: after)))
      (';' :: ("default".toList ++ (h ++ ':' :: after))) :=
    shifted_separate blank nonempty opens ⟨h, after, rfl, blank'⟩
  simpa using move

theorem deferBlock_shifts (member : "\x7b" ∈ marks) : deferBlock.Shifts marks follows starts := by
  intro before u after v reads
  obtain ⟨g, rfl, rfl, blank, -⟩ := reads_deferBlock.1 reads
  have move : Shifted marks follows starts ("defer".toList ++ (g ++ ("\x7b".toList ++ after)))
      ("defer".toList ++ ("\x7b".toList ++ after)) := by
    by_cases empty : g = []
    · subst empty
      exact .refl
    · have move : Move marks follows starts "defer".toList g [] ("\x7b".toList ++ after) :=
        .close blank empty ⟨_, member, .inr (List.prefix_append _ after)⟩
      simpa using move.shifted
  simpa using move

theorem returnSpace_shifts : returnSpace.Shifts marks BehindKeyword starts := by
  intro before u after v reads
  obtain ⟨g, rfl, rfl, inline, nonempty, -⟩ := reads_returnSpace.1 reads
  simpa using shifted_space (x := "return".toList) (h := [' ']) (y := after)
    (inline.mono fun _ => isBlank_of_isInlineBlank) nonempty (by decide) (by simp)
    (.inl (⟨'n', by simp⟩ : BehindKeyword _))

theorem keywordSpace_shifts : keywordSpace.Shifts marks BehindKeyword starts := by
  intro before u after v reads
  obtain ⟨g, word, member, rfl, rfl, blank, nonempty, -⟩ := reads_keywordSpace.1 reads
  have ends : ∀ word ∈ spacedKeywords, BehindKeyword word.toList := by
    simp [spacedKeywords, BehindKeyword]
  simpa using shifted_space (x := word.toList) (h := [' ']) (y := after) blank nonempty (by decide) (by simp)
    (.inl (ends word member))

theorem colonSpace_shifts (member : ":" ∈ marks) : colonSpace.Shifts marks follows starts := by
  intro before u after v reads
  obtain ⟨g, h, rfl, rfl, blank, blank', -⟩ := reads_colonSpace.1 reads
  have left := shifted_before follows starts member blank (y := h ++ after)
  have right := shifted_after follows starts member blank' (y := after)
  simpa using left.trans right

theorem stage_shifted (order : i ≤ j) (ends : AtEnd follows)
    (each : ∀ rule ∈ (productionReplacements.take j).drop i, rule.pattern.Shifts marks follows starts) (s : List Char) :
    Shifted marks follows starts (stage i s) (stage j s) := by
  rw [stage_eq order]
  have advances : ∀ rule ∈ (productionReplacements.take j).drop i, rule.pattern.Advances := fun rule member =>
    replacement_advances (List.mem_of_mem_take (List.mem_of_mem_drop member))
  revert each advances
  generalize (productionReplacements.take j).drop i = rules
  intro each advances
  generalize stage i s = z
  induction rules generalizing z with
  | nil => exact .refl
  | cons rule rules ih =>
      rw [List.forall_mem_cons] at each advances
      exact ((rewrite_swept advances.1 z).shifted ends each.1).trans
        (ih each.2 advances.2 (rule.apply z))

theorem atEnd_nowhere : AtEnd fun _ => False := fun _ _ => id

theorem stage_operators (s : List Char) :
    Shifted (arithmeticOperators ++ equalityOperators) (fun _ => False) (fun _ => False) s (stage 2 s) := by
  refine stage_shifted (Nat.zero_le 2) atEnd_nowhere ?_ s
  have order : (productionReplacements.take 2).drop 0 =
      [⟨"assignment-bitwise-shift-operators", tightOperator arithmeticOperators⟩,
        ⟨"equality-operators", tightOperator equalityOperators⟩] := rfl
  rw [order]
  simp only [List.forall_mem_cons, List.not_mem_nil, false_implies, implies_true, and_true]
  exact ⟨tightOperator_shifts (by decide) (by simp), tightOperator_shifts (by decide) (by simp)⟩

def braces : List String := ["\x7b", "\x7d"]

theorem stage_layout (s : List Char) : Shifted braces BeforeSpace starts (stage 3 s) (stage 8 s) := by
  refine stage_shifted (by decide) atEnd_beforeSpace ?_ s
  have order : (productionReplacements.take 8).drop 3 =
      [⟨"attributes", attributeSpace⟩, ⟨"open-brace-whitespace", blanksAfter "\x7b"⟩,
        ⟨"close-brace-whitespace", closeBrace⟩, ⟨"guard-else-return", guardBare⟩,
        ⟨"guard-else-return-value", guardResult⟩] := rfl
  rw [order]
  simp only [List.forall_mem_cons, List.not_mem_nil, false_implies, implies_true, and_true]
  exact ⟨attributeSpace_shifts, blanksAfter_shifts (by decide), closeBrace_shifts (by decide),
    guardBare_shifts (by decide) (by decide), guardResult_shifts (by decide) (by decide)⟩

theorem stage_attributes (s : List Char) : Shifted braces BeforeSpace AttributeNext (stage 2 s) (stage 8 s) := by
  refine Relation.ReflTransGen.trans (stage_shifted (j := 3) (by decide) atEnd_beforeSpace ?_ s) (stage_layout s)
  have order : (productionReplacements.take 3).drop 2 = [⟨"attributes-after-content", attributeLine⟩] := rfl
  rw [order]
  simpa using attributeLine_shifts

theorem stage_keywords (s : List Char) : Shifted [] (fun _ => False) KeywordNext (stage 8 s) (stage 9 s) := by
  refine stage_shifted (by decide) atEnd_nowhere ?_ s
  have order : (productionReplacements.take 9).drop 8 = [⟨"statement-keywords-after-newline", keywordLine⟩] := rfl
  rw [order]
  simpa using keywordLine_shifts

theorem stage_defaults (s : List Char) : Shifted [] (fun _ => False) DefaultNext (stage 9 s) (stage 10 s) := by
  refine stage_shifted (by decide) atEnd_nowhere ?_ s
  have order : (productionReplacements.take 10).drop 9 = [⟨"default-after-newline", defaultLine⟩] := rfl
  rw [order]
  simpa using defaultLine_shifts

theorem stage_punctuation (s : List Char) :
    Shifted delimiters BehindKeyword (fun _ => False) (stage 10 s) (stage 15 s) := by
  refine stage_shifted (by decide) atEnd_behindKeyword ?_ s
  have order : (productionReplacements.take 15).drop 10 =
      [⟨"defer-block", deferBlock⟩, ⟨"return-whitespace", returnSpace⟩, ⟨"keyword-whitespace", keywordSpace⟩,
        ⟨"colon-whitespace", colonSpace⟩, ⟨"comma-whitespace", blanksAfter ","⟩] := rfl
  rw [order]
  simp only [List.forall_mem_cons, List.not_mem_nil, false_implies, implies_true, and_true]
  exact ⟨deferBlock_shifts (by decide), returnSpace_shifts, keywordSpace_shifts, colonSpace_shifts (by decide),
    blanksAfter_shifts (by decide)⟩

end SourceBundle.Swift
