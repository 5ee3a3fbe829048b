import SourceBundle.Proofs.ByteSizes
import SourceBundle.Proofs.Production.Readings

/-!
Every production rule is a respacing. The marks beside which a rule drops blanks and the characters
after which it writes a space are given with each rule.
-/

namespace SourceBundle.Swift

open Pattern Text

variable {marks : List String} {ends : Char → Bool} {x g h y : List Char}

def delimiters : List String := ["\x7b", "\x7d", ":", ","]

def endsCondition (c : Char) : Bool := !isBlank c && c != '\x7b'

theorem respaced_before (marks : List String) (ends : Char → Bool) {mark : String}
    (member : mark ∈ marks) (blank : Within isBlank g)
    (stops : Stops isBlank (mark.toList ++ y)) :
    Respaced marks ends (g ++ (mark.toList ++ y)) (mark.toList ++ y) := by
  by_cases empty : g = []
  · subst empty
    exact .refl
  · have beside : Beside marks [] (mark.toList ++ y) := ⟨mark, member, .inr (List.prefix_append _ _)⟩
    simpa using (Change.close blank empty beside stops).respaced

theorem respaced_after (marks : List String) (ends : Char → Bool) {mark : String}
    (member : mark ∈ marks) (blank : Within isBlank g)
    (stops : Stops isBlank y) :
    Respaced marks ends (mark.toList ++ (g ++ y)) (mark.toList ++ y) := by
  by_cases empty : g = []
  · subst empty
    exact .refl
  · have beside : Beside marks mark.toList y := ⟨mark, member, .inl (List.suffix_refl _)⟩
    simpa using (Change.close blank empty beside stops).respaced

theorem respaced_space (marks : List String) {c : Char} (blank : Within isBlank g) (nonempty : g ≠ [])
    (ended : ends c = true) :
    Respaced marks ends (x ++ [c] ++ (g ++ y)) (x ++ [c] ++ ([' '] ++ y)) := by
  have change : Change marks ends (x ++ [c]) g [' '] y :=
    .space blank nonempty (by decide) (by simp) ((space_lightest nonempty).imp_left fun same => same) ended
  simpa using change.respaced

theorem respaced_blanks (marks : List String) {c i : Char} {k : List Char} (blank : Within isBlank g)
    (nonempty : g ≠ []) (inline : isInlineBlank i = true) (blank' : Within isBlank h) (inline' : Within isInlineBlank k)
    (lighter : h = k ∨ weight k < weight h) (ended : ends c = true) :
    Respaced marks ends (x ++ [c] ++ (g ++ i :: h ++ y)) (x ++ [c] ++ (' ' :: i :: k ++ y)) := by
  have both : g ++ i :: h = ' ' :: i :: k ∨ weight (' ' :: i :: k) < weight (g ++ i :: h) := by
    have front := space_lightest nonempty
    simp only [weight_append, weight_cons, weight_nil] at front ⊢
    rcases front with rfl | front
    · rcases lighter with rfl | lighter
      · exact .inl rfl
      · right
        simp only [weight_cons, weight_nil]
        omega
    · right
      rcases lighter with rfl | lighter <;> omega
  have space : isInlineBlank ' ' = true := by decide
  have change : Change marks ends (x ++ [c]) (g ++ i :: h) (' ' :: i :: k) y :=
    .space (by simp [blank, blank', isBlank_of_isInlineBlank inline]) (by simp)
      (by simp [space, inline, inline']) (by simp) both ended
  simpa using change.respaced

theorem newline_mem {before : Option Char} (nonempty : g ≠ []) (opens : OpensLine (lastOf before g)) :
    '\n' ∈ g := by
  obtain ⟨g, c, rfl⟩ := (List.eq_nil_or_concat g).resolve_left nonempty
  simp_all

theorem respaced_separate (marks : List String) (ends : Char → Bool) {c : Char}
    (blank : Within isBlank g) (broken : '\n' ∈ g) (starts : c ∈ ['@', 'd', 's', 'r', 'c']) :
    Respaced marks ends (g ++ c :: y) (';' :: c :: y) := by
  have change : Change marks ends [] g [';'] (c :: y) := .separate blank broken starts
  simpa using change.respaced

theorem tightOperator_respaces {operators : List String} (filled : operators ≠ [])
    (included : operators ⊆ marks) : (tightOperator operators).Respaces marks ends := by
  intro before u after v reads
  obtain ⟨g, operator, h, member, rfl, rfl, blank, -, stops, blank', -, stops'⟩ :=
    (reads_tightOperator filled).1 reads
  have left := respaced_before marks ends (included member) blank
    (y := h ++ after) (by simpa using stops)
  have right := respaced_after marks ends (included member) blank' stops'
  simpa using left.trans right

theorem attributeLine_respaces : attributeLine.Respaces marks endsAttribute := by
  intro before u after v reads
  obtain ⟨_, h, _, _, rfl, rfl, lower, space⟩ := (reads_append _ _ _ _ _ _).1 reads
  obtain ⟨g, a, _, _, rfl, rfl, separator, use⟩ := (reads_append _ _ _ _ _ _).1 lower
  obtain ⟨rfl, ⟨s, start⟩, w, c, last, ended⟩ := reads_attributeUse use
  obtain ⟨blank, nonempty, -, opens, rfl⟩ := reads_separated.1 separator
  obtain ⟨blank', nonempty', -, rfl⟩ := reads_oneSpace.1 space
  have left := respaced_separate marks endsAttribute (y := s ++ (h ++ after))
    blank (newline_mem nonempty opens) (c := '@') (by decide)
  have right := (respaced_space marks (x := w) (y := after) blank' nonempty' ended).prepend [';']
  rw [← last] at right
  rw [← List.cons_append, ← start] at left
  simpa using left.trans (by simpa using right)

theorem attributeSpace_respaces : attributeSpace.Respaces marks endsAttribute := by
  intro before u after v reads
  obtain ⟨a, h, _, _, rfl, rfl, use, space⟩ := (reads_append _ _ _ _ _ _).1 reads
  obtain ⟨rfl, -, w, c, last, ended⟩ := reads_attributeUse use
  obtain ⟨blank', nonempty', -, rfl⟩ := reads_oneSpace.1 space
  have right := respaced_space marks (x := w) (y := after) blank' nonempty' ended
  rw [← last] at right
  simpa using right

theorem blanksAfter_respaces {mark : String} (member : mark ∈ marks) :
    (blanksAfter mark).Respaces marks ends := by
  intro before u after v reads
  obtain ⟨g, rfl, rfl, blank, -, stops⟩ := reads_blanksAfter.1 reads
  simpa using respaced_after marks ends member blank stops

theorem closeBrace_respaces (member : "\x7d" ∈ marks) : closeBrace.Respaces marks ends := by
  intro before u after v reads
  obtain ⟨g, rfl, rfl, blank, -⟩ := reads_closeBrace.1 reads
  simpa using respaced_before marks ends (y := after) member blank
    ((stops_cons _ _ _).2 (by decide))

theorem condition_respaced (marks : List String) {c d : List Char} (condition : Condition c d)
    (ended : ∀ e, endsCondition e = true → ends e = true) :
    Respaced marks ends ("guard".toList ++ (c ++ y)) ("guard".toList ++ (d ++ y)) := by
  have letter : ends 'd' = true := ended 'd' (by decide)
  cases condition with
  | @text g x h e blank nonempty inside solid blank' nonempty' =>
      rw [within_append, within_cons] at inside
      have closed : ends e = true := ended e (by
        simp only [endsCondition, solid, Bool.not_false, Bool.true_and]
        have open' := inside.2.1
        simp only [isInCondition, Bool.and_eq_true] at open'
        exact open'.2)
      have right := respaced_space marks (x := "guard".toList ++ g ++ x) (y := y) blank'
        nonempty' closed
      have left := respaced_space marks (x := "guar".toList) (y := x ++ [e] ++ ([' '] ++ y))
        blank nonempty letter
      simpa using Relation.ReflTransGen.trans (by simpa using right) (by simpa using left)
  | blank blank nonempty inline blank' nonempty' =>
      simpa using respaced_blanks marks (x := "guar".toList) (y := y) (k := [' ']) blank
        nonempty inline blank' (by decide) (space_lightest nonempty') letter

theorem guardReturn_respaces (member : "\x7b" ∈ marks)
    (ended : ∀ e, endsCondition e = true → ends e = true) : guardReturn.Respaces marks ends := by
  intro before u after v reads
  obtain ⟨c, d, p, q, rfl, rfl, condition, blank, blank'⟩ := reads_guardReturn reads
  have inner := (respaced_after marks ends member blank' (y := "return".toList ++ after)
    ((stops_cons _ _ _).2 (by decide))).prepend ("guard".toList ++ c ++ "else".toList ++ p)
  have outer := (respaced_before marks ends member blank (y := "return".toList ++ after)
    ((stops_cons _ _ _).2 (by decide))).prepend ("guard".toList ++ c ++ "else".toList)
  have head := condition_respaced marks (y := "else\x7breturn".toList ++ after) condition
    ended
  refine Relation.ReflTransGen.trans (by simpa using inner) (Relation.ReflTransGen.trans
    (by simpa using outer) ?_)
  simpa using head

theorem guardBare_respaces (opens : "\x7b" ∈ marks) (closes : "\x7d" ∈ marks)
    (ended : ∀ e, endsCondition e = true → ends e = true) : guardBare.Respaces marks ends := by
  intro before u after v reads
  obtain ⟨w, z, g, rfl, rfl, blank, head⟩ := reads_guardBare reads
  have left := guardReturn_respaces opens ended _ _ _ _ head
  have right := (respaced_before marks ends closes blank (y := after)
    ((stops_cons _ _ _).2 (by decide))).prepend z
  simpa using Relation.ReflTransGen.trans left (by simpa using right)

theorem outcome_respaced {c d : List Char} (outcome : Outcome c d) (closes : "\x7d" ∈ marks)
    (ended : ends 'n' = true) :
    Respaced marks ends (x ++ ['n'] ++ (c ++ ('\x7d' :: y))) (x ++ ['n'] ++ (d ++ ('\x7d' :: y))) := by
  cases outcome with
  | @text g z h blank nonempty inside filled blank' =>
      have right := (respaced_before marks ends closes blank' (y := y)
        ((stops_cons _ _ _).2 (by decide))).prepend (x ++ ['n'] ++ g ++ z)
      have left := respaced_space marks (x := x) (y := z ++ '\x7d' :: y) blank nonempty ended
      simpa using Relation.ReflTransGen.trans (by simpa using right) (by simpa using left)
  | @blank g h i blank nonempty inline blank' =>
      have lighter : h = [] ∨ weight [] < weight h := by
        rcases h with _ | ⟨c, h⟩
        · exact .inl rfl
        · exact .inr (weight_pos (by simp))
      simpa using respaced_blanks marks (x := x) (y := '\x7d' :: y) (k := []) blank nonempty
        inline blank' (by simp) lighter ended

theorem guardResult_respaces (opens : "\x7b" ∈ marks) (closes : "\x7d" ∈ marks)
    (ended : ∀ e, endsCondition e = true → ends e = true) : guardResult.Respaces marks ends := by
  intro before u after v reads
  obtain ⟨w, z, g, h, rfl, rfl, outcome, head⟩ := reads_guardResult reads
  have left := guardReturn_respaces opens ended _ _ _ _ head
  obtain ⟨c, d, p, q, rfl, rfl, -⟩ := reads_guardReturn head
  have right := outcome_respaced (x := "guard".toList ++ d ++ "else\x7bretur".toList) (y := after)
    outcome closes (ended 'n' (by decide))
  simpa using Relation.ReflTransGen.trans left (by simpa using right)

theorem keywordLine_respaces : keywordLine.Respaces marks ends := by
  intro before u after v reads
  obtain ⟨g, word, member, rfl, rfl, blank, nonempty, opens, -⟩ := reads_keywordLine.1 reads
  have starts : ∀ word ∈ statementKeywords, ∃ c s, word.toList = c :: s ∧
      c ∈ ['@', 'd', 's', 'r', 'c'] := by
    simp [statementKeywords]
  obtain ⟨c, s, spelled, start⟩ := starts word member
  simpa [spelled] using respaced_separate marks ends (y := s ++ after) blank
    (newline_mem nonempty opens) start

theorem defaultLine_respaces : defaultLine.Respaces marks ends := by
  intro before u after v reads
  obtain ⟨g, h, rfl, rfl, blank, nonempty, opens, -⟩ := reads_defaultLine.1 reads
  simpa using respaced_separate marks ends (c := 'd') blank
    (newline_mem nonempty opens) (by decide) (y := "efault".toList ++ h ++ [':'] ++ after)

theorem deferBlock_respaces (member : "\x7b" ∈ marks) : deferBlock.Respaces marks ends := by
  intro before u after v reads
  obtain ⟨g, rfl, rfl, blank, -⟩ := reads_deferBlock.1 reads
  simpa using (respaced_before marks ends (y := after) member blank
    ((stops_cons _ _ _).2 (by decide))).prepend "defer".toList

theorem returnSpace_respaces (ended : ends 'n' = true) : returnSpace.Respaces marks ends := by
  intro before u after v reads
  obtain ⟨g, rfl, rfl, inline, nonempty, -, -⟩ := reads_returnSpace.1 reads
  simpa using respaced_space marks (x := "retur".toList) (y := after)
    (inline.mono fun _ => isBlank_of_isInlineBlank) nonempty ended

theorem keywordSpace_respaces (ended : ∀ c ∈ ['h', 'e', 't'], ends c = true) :
    keywordSpace.Respaces marks ends := by
  intro before u after v reads
  obtain ⟨g, word, member, rfl, rfl, blank, nonempty, -, -⟩ := reads_keywordSpace.1 reads
  have finishes : ∀ word ∈ spacedKeywords, ∃ s, ∃ c ∈ ['h', 'e', 't'], word.toList = s ++ [c] := by
    intro word member
    simp only [spacedKeywords, List.mem_cons, List.not_mem_nil, or_false] at member
    rcases member with rfl | rfl | rfl
    · exact ⟨"switc".toList, 'h', by decide, rfl⟩
    · exact ⟨"cas".toList, 'e', by decide, rfl⟩
    · exact ⟨"inou".toList, 't', by decide, rfl⟩
  obtain ⟨s, c, last, spelled⟩ := finishes word member
  simpa [spelled] using respaced_space marks (x := s) (y := after) blank nonempty (ended c last)

theorem colonSpace_respaces (member : ":" ∈ marks) : colonSpace.Respaces marks ends := by
  intro before u after v reads
  obtain ⟨g, h, rfl, rfl, blank, blank', stops⟩ := reads_colonSpace.1 reads
  have left := respaced_before marks ends member blank (y := h ++ after)
    ((stops_cons _ _ _).2 (by decide))
  have right := respaced_after marks ends member blank' stops
  simpa using left.trans right

theorem separatorAfter_respaces {mark : String} (member : mark ∈ marks) :
    (separatorAfter mark).Respaces marks ends := by
  intro before u after v reads
  obtain ⟨rfl, rfl⟩ := reads_separatorAfter.1 reads
  have change : Change marks ends mark.toList [';'] [] after := .correct member (List.suffix_refl _)
  simpa using change.respaced

theorem separatorAfterIn_respaces : separatorAfterIn.Respaces marks ends := by
  intro before u after v reads
  obtain ⟨rfl, rfl, -⟩ := reads_separatorAfterIn.1 reads
  have change : Change marks ends ([] ++ ['i', 'n']) [';'] [' '] after := .closure
  simpa using change.respaced

theorem attributeLine_advances : attributeLine.Advances := advances_of_least (by decide +kernel)

theorem tightOperator_advances (operators : List String) : (tightOperator operators).Advances :=
  advances_of_least (Nat.lt_of_lt_of_le Nat.one_pos (Nat.le_add_right 1 _))

theorem blanksAfter_advances {mark : String} : (blanksAfter mark).Advances := by
  intro before u after v reads
  obtain ⟨g, rfl, -, -, nonempty, -⟩ := reads_blanksAfter.1 reads
  simp [nonempty]

theorem closeBrace_advances : closeBrace.Advances := advances_of_least (by decide)

theorem keywordLine_advances : keywordLine.Advances := advances_of_least (by decide)

theorem defaultLine_advances : defaultLine.Advances := advances_of_least (by decide)

theorem deferBlock_advances : deferBlock.Advances := advances_of_least (by decide)

theorem returnSpace_advances : returnSpace.Advances := advances_of_least (by decide)

theorem keywordSpace_advances : keywordSpace.Advances := advances_of_least (by decide)

theorem colonSpace_advances : colonSpace.Advances := advances_of_least (by decide)

theorem separatorAfter_advances {mark : String} : (separatorAfter mark).Advances := by
  intro before u after v reads
  obtain ⟨rfl, -⟩ := reads_separatorAfter.1 reads
  simp

theorem separatorAfterIn_advances : separatorAfterIn.Advances := advances_of_least (by decide)

def replacementMarks : List String := arithmeticOperators ++ equalityOperators ++ delimiters

def isSolid (c : Char) : Bool := !isBlank c

theorem isSolid_of_endsAttribute {c : Char} (ended : endsAttribute c = true) : isSolid c = true := by
  simp only [isSolid, Bool.not_eq_true']
  by_contra blank
  simp only [endsAttribute, isWord_of_isBlank (Bool.not_eq_false _ ▸ blank), Bool.false_or,
    beq_iff_eq] at ended
  subst ended
  exact blank (by decide)

theorem isSolid_of_endsCondition {c : Char} (ended : endsCondition c = true) : isSolid c = true := by
  simp only [endsCondition, Bool.and_eq_true] at ended
  exact ended.1

theorem replacement_advances {rule : Rule} (member : rule ∈ productionReplacements) :
    rule.pattern.Advances := by
  have takes : ∀ rule ∈ productionReplacements, 0 < rule.pattern.least := by decide +kernel
  exact advances_of_least (takes rule member)

def punctuationReplacements : List Rule := productionReplacements.drop 13

theorem punctuationReplacements_patterns :
    punctuationReplacements.map Rule.pattern =
      [colonSpace, blanksAfter ",", separatorAfter "\x7b", separatorAfter ":", separatorAfterIn] := rfl

theorem punctuation_respaces : ∀ rule ∈ punctuationReplacements,
    rule.pattern.Respaces delimiters fun _ => false := by
  intro rule member
  have choices := List.mem_map_of_mem (f := Rule.pattern) member
  rw [punctuationReplacements_patterns] at choices
  simp only [List.mem_cons, List.not_mem_nil, or_false] at choices
  rcases choices with h | h | h | h | h <;> rw [h]
  · exact colonSpace_respaces (by decide)
  · exact blanksAfter_respaces (by decide)
  · exact separatorAfter_respaces (by decide)
  · exact separatorAfter_respaces (by decide)
  · exact separatorAfterIn_respaces

def keywordReplacements : List Rule := productionReplacements.drop 12

def endsKeyword (c : Char) : Bool := c == 'h' || c == 'e' || c == 't'

theorem keyword_respaces : ∀ rule ∈ keywordReplacements,
    rule.pattern.Respaces delimiters endsKeyword := by
  have order : keywordReplacements = ⟨"keyword-whitespace", keywordSpace⟩ :: punctuationReplacements := rfl
  rw [order, List.forall_mem_cons]
  refine ⟨keywordSpace_respaces (by decide), fun rule member => ?_⟩
  exact (punctuation_respaces rule member).mono (List.Subset.refl _) (by simp)

def bodyReplacements : List Rule := productionReplacements.drop 5

theorem body_respaces : ∀ rule ∈ bodyReplacements,
    rule.pattern.Respaces delimiters endsCondition := by
  have order : bodyReplacements =
      [⟨"close-brace-whitespace", closeBrace⟩, ⟨"guard-else-return", guardBare⟩,
        ⟨"guard-else-return-value", guardResult⟩, ⟨"statement-keywords-after-newline", keywordLine⟩,
        ⟨"default-after-newline", defaultLine⟩, ⟨"defer-block", deferBlock⟩,
        ⟨"return-whitespace", returnSpace⟩] ++ keywordReplacements := rfl
  have keyword : ∀ c, endsKeyword c = true → endsCondition c = true := by
    intro c ended
    simp only [endsKeyword, Bool.or_eq_true, beq_iff_eq] at ended
    rcases ended with (rfl | rfl) | rfl <;> decide
  rw [order]
  simp only [List.forall_mem_append, List.forall_mem_cons, List.not_mem_nil, false_implies, implies_true,
    and_true]
  exact ⟨⟨closeBrace_respaces (by decide), guardBare_respaces (by decide) (by decide) fun _ => id,
    guardResult_respaces (by decide) (by decide) fun _ => id, keywordLine_respaces, defaultLine_respaces,
    deferBlock_respaces (by decide), returnSpace_respaces (by decide)⟩,
    fun rule member => (keyword_respaces rule member).mono (List.Subset.refl _) keyword⟩

def layoutReplacements : List Rule := productionReplacements.drop 2

theorem layout_respaces : ∀ rule ∈ layoutReplacements, rule.pattern.Respaces delimiters isSolid := by
  have order : layoutReplacements =
      [⟨"attributes-after-content", attributeLine⟩, ⟨"attributes", attributeSpace⟩,
        ⟨"open-brace-whitespace", blanksAfter "\x7b"⟩] ++ bodyReplacements := rfl
  rw [order]
  simp only [List.forall_mem_append, List.forall_mem_cons, List.not_mem_nil, false_implies, implies_true,
    and_true]
  exact ⟨⟨attributeLine_respaces.mono (List.Subset.refl _) fun _ => isSolid_of_endsAttribute,
    attributeSpace_respaces.mono (List.Subset.refl _) fun _ => isSolid_of_endsAttribute,
    blanksAfter_respaces (by decide)⟩,
    fun rule member => (body_respaces rule member).mono (List.Subset.refl _) fun _ => isSolid_of_endsCondition⟩

theorem layout_respaced {rule : Rule} (member : rule ∈ layoutReplacements) (s : List Char) :
    Respaced delimiters isSolid s (rule.apply s) :=
  rewrite_respaced (replacement_advances (List.mem_of_mem_drop member)) (layout_respaces rule member) s

theorem arithmetic_respaced (ends : Char → Bool) (s : List Char) :
    Respaced arithmeticOperators ends s ((tightOperator arithmeticOperators).rewrite s) :=
  rewrite_respaced (tightOperator_advances _)
    (tightOperator_respaces (by decide) (List.Subset.refl _)) s

theorem equality_respaced (ends : Char → Bool) (s : List Char) :
    Respaced equalityOperators ends s ((tightOperator equalityOperators).rewrite s) :=
  rewrite_respaced (tightOperator_advances _)
    (tightOperator_respaces (by decide) (List.Subset.refl _)) s

theorem applyAll_respaced {rules : List Rule}
    (each : ∀ rule ∈ rules, ∀ s, Respaced marks ends s (rule.apply s)) (s : List Char) :
    Respaced marks ends s (RuleSet.applyAll rules s) := by
  induction rules generalizing s with
  | nil => exact .refl
  | cons rule rules ih =>
      exact (each rule (by simp) s).trans
        (ih (fun rule member => each rule (by simp [member])) (rule.apply s))

theorem replacements_eq (s : List Char) :
    RuleSet.applyAll productionReplacements s =
      RuleSet.applyAll layoutReplacements ((tightOperator equalityOperators).rewrite
        ((tightOperator arithmeticOperators).rewrite s)) := by
  have order : productionReplacements =
      ⟨"assignment-bitwise-shift-operators", tightOperator arithmeticOperators⟩ ::
        ⟨"equality-operators", tightOperator equalityOperators⟩ :: layoutReplacements := rfl
  rw [order, RuleSet.applyAll, List.foldl_cons, List.foldl_cons]
  rfl

/-- The replacements one after the other change the spacing of a text and nothing else. -/
theorem replacements_respaced (s : List Char) :
    Respaced replacementMarks isSolid s (RuleSet.applyAll productionReplacements s) := by
  rw [replacements_eq]
  have arithmetic : Respaced replacementMarks isSolid s ((tightOperator arithmeticOperators).rewrite s) :=
    (arithmetic_respaced isSolid s).mono (by decide) fun _ => id
  generalize (tightOperator arithmeticOperators).rewrite s = z at arithmetic ⊢
  have equality : Respaced replacementMarks isSolid z ((tightOperator equalityOperators).rewrite z) :=
    (equality_respaced isSolid z).mono (by decide) fun _ => id
  generalize (tightOperator equalityOperators).rewrite z = w at equality ⊢
  have layout : Respaced replacementMarks isSolid w (RuleSet.applyAll layoutReplacements w) :=
    (applyAll_respaced (fun _ member => layout_respaced member) w).mono (by decide) fun _ => id
  exact (arithmetic.trans equality).trans layout

end SourceBundle.Swift
