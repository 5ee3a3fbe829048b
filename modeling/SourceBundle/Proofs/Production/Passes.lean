import SourceBundle.Proofs.Lightening
import SourceBundle.Proofs.Production.Cleanup

/-!
The passes of the production profile one by one: each leaves a text as it is or makes it lighter, so
that a text which the profile leaves as it is, is one that each of the passes leaves as it is.
-/

namespace SourceBundle.Swift

open Pattern Text

variable {before : Option Char} {u after v : List Char}

def caseName : Pattern :=
  someGap ++ identifier ++ gap ++ literal "(" ++ all false fun c => isInArguments c && c != '\n'

def caseRest : Pattern := newline ++ (all false isInArguments ++ literal ")")

theorem caseDeclaration_eq :
    caseDeclaration = lineStart ++ (gap ++ (Pattern.optional (literal "indirect" ++ someGap) ++
      (literal "case" ++ (caseName ++ caseRest)))) := rfl

theorem reads_caseName (reads : caseName.Reads before u after v) : v = u := by
  simp only [caseName, identifier, reads_append, reads_literal, reads_gap, reads_someGap, Reads] at reads
  obtain ⟨_, _, _, _, rfl, rfl, ⟨_, _, _, _, rfl, rfl, ⟨_, _, _, _, rfl, rfl, ⟨_, _, _, _, rfl, rfl,
    ⟨-, -, -, rfl⟩, _, _, _, _, rfl, rfl, ⟨c, -, rfl, rfl⟩, -, -, -, rfl⟩, -, -, rfl⟩, rfl, rfl⟩, -, -, -,
    rfl⟩ := reads
  rfl

theorem reads_caseRest (reads : caseRest.Reads before u after v) : v = u ∧ '\n' ∈ u := by
  simp only [caseRest, newline, reads_append, reads_literal, Reads] at reads
  obtain ⟨_, _, _, _, rfl, rfl, ⟨rfl, rfl⟩, _, _, _, _, rfl, rfl, ⟨-, -, -, rfl⟩, rfl, rfl⟩ := reads
  exact ⟨rfl, by simp⟩

theorem reads_indirect
    (reads : (Pattern.optional (literal "indirect" ++ someGap)).Reads before u after v) :
    v = u ∧ (u = [] ∨ ∃ w, u = 'i' :: w) := by
  rcases reads with reads | ⟨rfl, rfl⟩
  · simp only [reads_append, reads_literal, reads_someGap] at reads
    obtain ⟨_, _, _, _, rfl, rfl, ⟨rfl, rfl⟩, -, -, -, rfl⟩ := reads
    exact ⟨rfl, .inr ⟨_, rfl⟩⟩
  · exact ⟨rfl, .inl rfl⟩

theorem reads_caseDeclaration (reads : caseDeclaration.Reads before u after v) :
    v = u ∧ OpensLine before ∧
      ∃ g c w, u = g ++ c :: w ∧ Within isInlineBlank g ∧ c ∈ ['c', 'i'] ∧ '\n' ∈ u := by
  rw [caseDeclaration_eq] at reads
  simp only [reads_append, reads_literal, reads_gap, Reads] at reads
  obtain ⟨_, _, _, _, rfl, rfl, ⟨rfl, rfl, opens⟩, g, _, _, _, rfl, rfl, ⟨blank, -, rfl⟩, i, _, _, _, rfl,
    rfl, indirect, _, _, _, _, rfl, rfl, ⟨rfl, rfl⟩, n, r, _, _, rfl, rfl, name, rest⟩ := reads
  obtain ⟨rfl, start⟩ := reads_indirect indirect
  obtain rfl := reads_caseName name
  obtain ⟨rfl, broken⟩ := reads_caseRest rest
  refine ⟨rfl, opens, ?_⟩
  rcases start with rfl | ⟨w, rfl⟩
  · exact ⟨_, 'c', "ase".toList ++ (_ ++ _), rfl, blank, by simp, by simp [broken]⟩
  · exact ⟨_, 'i', w ++ ("case".toList ++ (_ ++ _)), rfl, blank, by simp, by simp [broken]⟩

theorem caseDeclaration_advances : caseDeclaration.Advances := advances_of_least (by decide)

theorem join_lightens (embedded : Bool) (s : List Char) :
    Lightens s ((production embedded).join s) := by
  cases embedded with
  | false => exact .refl s
  | true =>
      refine (RuleSet.joinDeclarations_joined ';' caseDeclaration_advances s).lightens ?_
      intro before u after v reads
      obtain ⟨rfl, -, -, -, -, -, -, -, broken⟩ := reads_caseDeclaration reads
      exact .inr (weight_oneLine broken)

def importRest : Pattern :=
  someGap ++ Pattern.optional (anyText importKinds ++ someGap) ++ modulePath ++ gap ++
    Pattern.optional (literal ";") ++ gap ++ Pattern.optional (literal "//" ++ restOfLine) ++ lineEnd

theorem importLine_eq :
    importLine = lineStart ++ (gap ++ (repeated (anyText importQualifiers ++ someGap) ++
      (literal "import" ++ importRest))) := rfl

theorem importLine_advances : (drop importLine).Advances := advances_of_least (by decide)

theorem removal_drops {embedded : Bool} {rule : Rule} (member : rule ∈ (production embedded).removals) :
    ∃ body, rule.pattern = drop body ∧ (drop body).Advances := by
  have plain : rule ∈ productionRemovals → ∃ body, rule.pattern = drop body ∧ (drop body).Advances := by
    intro member
    have choices := List.mem_map_of_mem (f := Rule.pattern) member
    rw [productionRemovals_patterns] at choices
    simp only [List.mem_cons, List.not_mem_nil, or_false] at choices
    rcases choices with h | h | h | h <;> rw [h] <;> exact ⟨_, rfl, advances_of_least (by decide)⟩
  cases embedded with
  | false => exact plain member
  | true =>
      rcases List.mem_append.1 member with member | member
      · obtain rfl := List.mem_singleton.1 member
        exact ⟨importLine, rfl, importLine_advances⟩
      · exact plain member

theorem removal_lightens {embedded : Bool} {rule : Rule}
    (member : rule ∈ (production embedded).removals) (s : List Char) : Lightens s (rule.apply s) := by
  obtain ⟨body, pattern, advances⟩ := removal_drops member
  rw [Rule.apply, pattern]
  exact rewrite_drop_lightens advances s

theorem replacement_respaced {rule : Rule} (member : rule ∈ productionReplacements) (s : List Char) :
    Respaced replacementMarks isSolid s (rule.apply s) := by
  have order : productionReplacements =
      ⟨"assignment-bitwise-shift-operators", tightOperator arithmeticOperators⟩ ::
        ⟨"equality-operators", tightOperator equalityOperators⟩ :: layoutReplacements := rfl
  rw [order, List.mem_cons, List.mem_cons] at member
  rcases member with rfl | rfl | member
  · exact (arithmetic_respaced isSolid s).mono (by decide) fun _ => id
  · exact (equality_respaced isSolid s).mono (by decide) fun _ => id
  · exact (layout_respaced member s).mono (by decide) fun _ => id

theorem replacement_lightens {rule : Rule} (member : rule ∈ productionReplacements) (s : List Char) :
    Lightens s (rule.apply s) :=
  (replacement_respaced member s).lightens

/-- The production profile leaves a text as it is just when each of its passes does. -/
theorem rewrite_eq_self_iff (embedded : Bool) (s : List Char) :
    (production embedded).rewrite s = s ↔
      (production embedded).join s = s ∧ ∀ rule ∈ (production embedded).rules, rule.apply s = s := by
  have removal : ∀ rule ∈ (production embedded).removals, ∀ z, Lightens z (rule.apply z) :=
    fun _ member => removal_lightens member
  have replacement : ∀ rule ∈ productionReplacements, ∀ z, Lightens z (rule.apply z) :=
    fun _ member => replacement_lightens member
  have removals := RuleSet.applyAll_eq_self_iff removal
  have replacements := RuleSet.applyAll_eq_self_iff replacement
  have rules : (production embedded).rules = (production embedded).removals ++ productionReplacements := rfl
  rw [rules, List.forall_mem_append, rewrite_eq, reduced]
  constructor
  · intro same
    have first := join_lightens embedded s
    have second := RuleSet.applyAll_lightens removal ((production embedded).join s)
    have third := RuleSet.applyAll_lightens replacement
      (RuleSet.applyAll (production embedded).removals ((production embedded).join s))
    rw [same] at third
    -- The last text weighs what the first does, so no pass on the way has changed it.
    have joined : (production embedded).join s = s := by
      refine first.resolve_right fun lighter => ?_
      have := second.le
      have := third.le
      omega
    rw [joined] at same second third
    have reduced : RuleSet.applyAll (production embedded).removals s = s := by
      refine second.resolve_right fun lighter => ?_
      have := third.le
      omega
    rw [reduced] at same
    exact ⟨joined, (removals s).1 reduced, (replacements s).1 same⟩
  · rintro ⟨joined, removed, replaced⟩
    rw [joined, (removals s).2 removed, (replacements s).2 replaced]

end SourceBundle.Swift
