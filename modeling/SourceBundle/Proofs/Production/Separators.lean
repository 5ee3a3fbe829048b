import SourceBundle.Proofs.Production.Passes

/-!
Where semicolons stand in a text that had none: each leads a statement that a pass has put on the line
before, or a declaration that the structural pass has put on one line.
-/

namespace SourceBundle.Swift

open Pattern Text

variable {x g h y s u after v out : List Char} {o before : Option Char} {c : Char}

def startsStatement (c : Char) : Bool := ['@', 'd', 's', 'r', 'c', 'i'].contains c

def AfterSeparator (o : Option Char) : Prop := o = some ';'

abbrev StatementNext : List Char → Prop := Stops fun c => !startsStatement c

@[simp] theorem statementNext_nil : StatementNext [] := stops_nil _

@[simp] theorem statementNext_cons : StatementNext (c :: s) ↔ startsStatement c = true := by
  simp [StatementNext]

/-- Every semicolon leads a statement. -/
abbrev SeparatorsLead : Option Char → List Char → Prop := Throughout AfterSeparator StatementNext

theorem StatementNext.stops {p : Char → Bool} (next : StatementNext s)
    (other : ∀ c ∈ ['@', 'd', 's', 'r', 'c', 'i'], p c = false) : Stops p s := by
  cases s with
  | nil => exact stops_nil _
  | cons c s =>
      rw [statementNext_cons] at next
      rw [stops_cons]
      exact other c (by simpa [startsStatement] using next)

theorem StatementNext.stops_isBlank (next : StatementNext s) : Stops isBlank s :=
  next.stops (by decide)

theorem Change.separatorsLead (change : Change replacementMarks isSolid x g h y)
    (every : SeparatorsLead o (x ++ g ++ y)) : SeparatorsLead o (x ++ h ++ y) := by
  -- No blanks follow a semicolon, so those that change do not.
  have apart : Within isBlank g → ¬ AfterSeparator (lastOf o x) := by
    intro blank separator
    have next := (every x (g ++ y) (by simp) separator).stops_isBlank
    obtain ⟨c, g, rfl⟩ := List.exists_cons_of_ne_nil change.nonempty
    rw [within_cons] at blank
    simp [blank.1] at next
  refine every.between ?_ ?_
  · intro p q _ filled _ next
    cases q with
    | nil => exact absurd rfl filled
    | cons c q => simpa using next
  · intro p q split separator
    rcases List.eq_nil_or_concat p with rfl | ⟨p, c, rfl⟩
    · rw [List.append_nil] at separator
      cases change with
      | close blank | space blank | separate blank => exact absurd separator (apart blank)
      | correct member after =>
          have ends : ∀ mark ∈ replacementMarks, ∃ c ∈ mark.toList.getLast?, c ≠ ';' := by decide
          obtain ⟨c, last, other⟩ := ends _ member
          rw [AfterSeparator, lastOf_suffix after last, Option.some.injEq] at separator
          exact absurd separator other
      | closure => simp [AfterSeparator] at separator
    · simp only [List.concat_eq_append, lastOf_append, lastOf_cons, lastOf_nil, AfterSeparator,
        Option.some.injEq] at separator split
      subst separator split
      generalize written : p ++ [';'] ++ q = h at change
      cases change with
      | close | correct => simp at written
      | space _ _ inline =>
          subst written
          exact absurd (inline ';' (by simp)) (by decide)
      | separate _ _ starts =>
          obtain ⟨rfl, rfl⟩ : p = [] ∧ q = [] := by
            have := congrArg List.length written
            simp only [List.length_append, List.length_singleton] at this
            exact ⟨List.length_eq_zero_iff.1 (by omega), List.length_eq_zero_iff.1 (by omega)⟩
          rw [List.nil_append, statementNext_cons]
          revert starts
          simp only [List.mem_cons, List.not_mem_nil, or_false]
          rintro (rfl | rfl | rfl | rfl | rfl) <;> decide
      | closure =>
          cases p with
          | nil => simp at written
          | cons d p => simp at written

theorem not_afterSeparator (plain : ';' ∉ u) (start : ¬ AfterSeparator o) :
    ¬ AfterSeparator (lastOf o u) := by
  rcases List.eq_nil_or_concat u with rfl | ⟨u, c, rfl⟩
  · exact start
  · simp only [List.concat_eq_append, List.mem_append, List.mem_singleton, not_or] at plain
    simpa [AfterSeparator] using Ne.symm plain.2

theorem separatorsLead_of_not_mem (plain : ';' ∉ s) (start : ¬ AfterSeparator o) :
    SeparatorsLead o s := by
  rintro p q rfl separator
  rw [List.mem_append, not_or] at plain
  exact absurd separator (not_afterSeparator plain.1 start)

theorem joined_separatorsLead (joined : RuleSet.Joined ';' caseDeclaration before s out)
    (plain : ';' ∉ s) (start : ¬ AfterSeparator before) : SeparatorsLead before out := by
  induction joined with
  | done => exact throughout_nil.2 fun _ => statementNext_nil
  | @join before u after v out reads later ih =>
      obtain ⟨rfl, -, g, c, w, rfl, blank, keyword, -⟩ := reads_caseDeclaration reads
      rw [List.mem_append, not_or] at plain
      have solid : isBlank c = false ∧ startsStatement c = true ∧ ';' ≠ c := by
        revert keyword
        simp only [List.mem_cons, List.not_mem_nil, or_false]
        rintro (rfl | rfl) <;> decide
      obtain ⟨z, line⟩ := onOneLine_head (w := w) blank solid.1
      have line' : ';' ∉ c :: z := by
        rw [← line]
        exact fun member => plain.1 (mem_of_mem_onOneLine member)
      rw [RuleSet.oneLine, line] at ih ⊢
      have onward := ih plain.2 (by
        rw [lastOf_cons, lastOf_cons]
        exact not_afterSeparator (fun member => line' (List.mem_cons_of_mem _ member))
          (by simpa [AfterSeparator] using Ne.symm solid.2.2))
      refine throughout_cons.2 ⟨fun separator => absurd separator start, throughout_cons.2
        ⟨fun _ => statementNext_cons.2 solid.2.1, throughout_append.2 ⟨?_, onward⟩⟩⟩
      rintro p q rfl - separator
      rw [List.mem_cons, List.mem_append, not_or, not_or] at line'
      exact absurd separator (not_afterSeparator line'.2.1 (by simpa [AfterSeparator] using Ne.symm solid.2.2))
  | skip fails later ih =>
      rw [List.mem_cons, not_or] at plain
      refine throughout_cons.2 ⟨fun separator => absurd separator start, ih plain.2 ?_⟩
      simpa [AfterSeparator] using Ne.symm plain.1

theorem dropped_separatorsLead {p : Pattern} (drops : ∀ before u after v, p.Reads before u after v → v = [])
    (apart : ∀ before u after v, p.Reads before u after v → AfterSeparator before → ¬ StatementNext (u ++ after))
    (swept : Swept p before s out) (every : SeparatorsLead before s)
    (same : AfterSeparator o → AfterSeparator before) : SeparatorsLead o out := by
  induction swept generalizing o with
  | done => exact throughout_nil.2 fun _ => statementNext_nil
  | @step before u after v out reads nonempty later ih =>
      rw [drops _ _ _ _ reads]
      apply ih every.suffix
      intro separator
      have here := same separator
      exact absurd (every [] (u ++ after) rfl here) (apart _ _ _ _ reads here)
  | @skip before c s out fails later ih =>
      obtain ⟨here, every⟩ := throughout_cons.1 every
      exact throughout_cons.2 ⟨fun separator => by simpa using here (same separator), ih every id⟩

theorem trailingComment_eq_self (plain : '/' ∉ s) : trailingComment.rewrite s = s := by
  refine rewrite_eq_self trailingComment_advances ?_
  rintro x u after v rfl reads
  obtain ⟨g, r, rfl, -⟩ := reads_trailingComment.1 reads
  simp at plain

theorem removal_opensLine {embedded : Bool} {rule : Rule} (member : rule ∈ (production embedded).removals) :
    rule.pattern = trailingComment ∨ ∀ before u after v, rule.pattern.Reads before u after v → OpensLine before := by
  have choices : rule.pattern ∈ drop importLine :: productionRemovals.map Rule.pattern := by
    cases embedded with
    | false => exact List.mem_cons_of_mem _ (List.mem_map_of_mem member)
    | true => exact List.mem_map_of_mem (f := Rule.pattern) member
  rw [productionRemovals_patterns] at choices
  simp only [List.mem_cons, List.not_mem_nil, or_false] at choices
  rcases choices with h | h | h | h | h
  · right
    rw [h]
    rintro before u after v ⟨rfl, w, reads⟩
    rw [importLine_eq] at reads
    obtain ⟨_, _, _, _, rfl, rfl, ⟨rfl, rfl, opens⟩, -⟩ := (reads_append _ _ _ _ _ _).1 reads
    exact opens
  · right
    rw [h]
    intro before u after v reads
    obtain ⟨_, _, _, -, -, opens, -⟩ :=
      (reads_wholeLine "///" ((stops_cons _ _ _).2 (by decide)) (by decide)).1 reads
    exact opens
  · right
    rw [h]
    intro before u after v reads
    obtain ⟨_, _, _, -, -, opens, -⟩ := reads_commentLine.1 reads
    exact opens
  · exact .inl h
  · right
    rw [h]
    intro before u after v reads
    exact (reads_leadingBlanks.1 reads).2.1

theorem removal_separatorsLead {embedded : Bool} {rule : Rule}
    (member : rule ∈ (production embedded).removals) (every : SeparatorsLead none s) :
    SeparatorsLead none (rule.apply s) := by
  obtain ⟨body, pattern, advances⟩ := removal_drops member
  have drops : ∀ before u after v, rule.pattern.Reads before u after v → v = [] := by
    intro before u after v reads
    rw [pattern] at reads
    exact (reads_drop.1 reads).1
  apply dropped_separatorsLead drops _ (rewrite_swept (pattern ▸ advances) s) every id
  intro before u after v reads separator next
  rcases removal_opensLine member with trailing | lines
  · rw [trailing] at reads
    obtain ⟨g, r, rfl, -, blank, nonempty, -⟩ := reads_trailingComment.1 reads
    obtain ⟨c, g, rfl⟩ := List.exists_cons_of_ne_nil nonempty
    rw [within_cons] at blank
    have stops := next.stops_isBlank
    simp [isBlank_of_isInlineBlank blank.1] at stops
  · have opens := lines _ _ _ _ reads
    rw [AfterSeparator] at separator
    simp [separator] at opens

theorem joined_mem {d : Char} (joined : RuleSet.Joined ';' caseDeclaration before s out)
    (member : d ∈ out) : d = ';' ∨ d ∈ s := by
  induction joined with
  | done => exact .inr member
  | join reads later ih =>
      obtain ⟨rfl, -⟩ := reads_caseDeclaration reads
      rcases List.mem_append.1 member with inside | member
      · rcases List.mem_cons.1 inside with rfl | inside
        · exact .inl rfl
        · exact .inr (List.mem_append_left _ (mem_of_mem_onOneLine inside))
      · exact (ih member).imp_right (List.mem_append_right _)
  | skip fails later ih =>
      rcases List.mem_cons.1 member with rfl | member
      · exact .inr (by simp)
      · exact (ih member).imp_right (List.mem_cons_of_mem _)

/-- The text that the replacements start from has semicolons in front of declarations only, if the file has
none. -/
theorem reduced_leads (embedded : Bool) (separators : ';' ∉ s) :
    SeparatorsLead none (reduced embedded s) := by
  have joined : SeparatorsLead none ((production embedded).join s) := by
    cases embedded with
    | false => exact separatorsLead_of_not_mem separators (by simp [AfterSeparator])
    | true =>
        exact joined_separatorsLead (RuleSet.joinDeclarations_joined ';' caseDeclaration_advances s) separators
          (by simp [AfterSeparator])
  exact RuleSet.applyAll_keeps (fun _ member _ every => removal_separatorsLead member every) joined

theorem reduced_slash_not_mem (embedded : Bool) (slashes : '/' ∉ s) : '/' ∉ reduced embedded s := by
  have joined : '/' ∉ (production embedded).join s := by
    cases embedded with
    | false => exact slashes
    | true =>
        intro member
        rcases joined_mem (RuleSet.joinDeclarations_joined ';' caseDeclaration_advances s) member with same | member
        · exact absurd same (by decide)
        · exact slashes member
  apply RuleSet.applyAll_keeps (P := fun z => '/' ∉ z) _ joined
  intro rule member z plain inside
  obtain ⟨body, pattern, advances⟩ := removal_drops member
  rw [Rule.apply, pattern] at inside
  exact plain ((rewrite_swept advances z).mem (fun _ _ _ _ reads => (reads_drop.1 reads).1) inside)

theorem reduced_separatorsLead (embedded : Bool) (separators : ';' ∉ s) (slashes : '/' ∉ s) :
    SeparatorsLead none (reduced embedded s) ∧ '/' ∉ reduced embedded s :=
  ⟨reduced_leads embedded separators, reduced_slash_not_mem embedded slashes⟩

end SourceBundle.Swift
