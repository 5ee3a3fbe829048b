import SourceBundle.Proofs.Production.Settled.Words

/-!
Rewriting a rewritten text. What a replacement has settled the later ones leave settled, so that on a
second run only the rules about attributes and guards, and the structural pass, can find something.
-/

namespace SourceBundle.Swift

open Pattern Text

variable {marks : List String} {ends : Char → Bool} {s s' : List Char} {i j : Nat}

structure Tidy (s : List Char) : Prop where
  flush : FlushLeft none s
  leads : SeparatorsLead none s

theorem tidy_respaced (respaced : Respaced replacementMarks isSolid s s') (tidy : Tidy s) : Tidy s' :=
  respaced.keeps (P := Tidy) (fun _ _ _ _ change here =>
    ⟨Change.flushLeft change here.flush, Change.separatorsLead change here.leads⟩) tidy

/-- The text after the first replacements. -/
def stage (n : Nat) (s : List Char) : List Char := RuleSet.applyAll (productionReplacements.take n) s

theorem stage_tidy (n : Nat) (tidy : Tidy s) : Tidy (stage n s) :=
  RuleSet.applyAll_keeps (fun _ member _ here =>
    tidy_respaced (replacement_respaced (List.mem_of_mem_take member) _) here) tidy

theorem stage_eq (order : i ≤ j) (s : List Char) :
    stage j s = RuleSet.applyAll ((productionReplacements.take j).drop i) (stage i s) := by
  have split := List.take_append_drop i (productionReplacements.take j)
  rw [List.take_take, Nat.min_eq_left order] at split
  calc stage j s
      = RuleSet.applyAll (productionReplacements.take i ++ (productionReplacements.take j).drop i) s := by
        rw [split, stage]
    _ = RuleSet.applyAll ((productionReplacements.take j).drop i) (stage i s) := List.foldl_append

theorem stage_keeps (marks : List String) (ends : Char → Bool) {N : List Char → Prop} (order : i ≤ j)
    (known : marks ⊆ replacementMarks) (solid : ∀ c, ends c = true → isSolid c = true)
    (respaces : ∀ rule ∈ productionReplacements.drop i, rule.pattern.Respaces marks ends)
    (kept : ∀ x g h y, Change marks ends x g h y → Tidy (x ++ g ++ y) → N (x ++ g ++ y) → N (x ++ h ++ y))
    (tidy : Tidy s) (holds : N (stage i s)) : N (stage j s) := by
  have onward : Respaced marks ends (stage i s) (stage j s) := by
    rw [stage_eq order]
    refine applyAll_respaced (fun rule member z => ?_) _
    have later : rule ∈ productionReplacements.drop i :=
      ((List.take_sublist _ _).drop i).subset member
    exact rewrite_respaced (replacement_advances (List.mem_of_mem_drop later)) (respaces rule later) z
  refine (onward.keeps (P := fun z => Tidy z ∧ N z) (fun x g h y change here => ⟨?_, ?_⟩)
    ⟨stage_tidy i tidy, holds⟩).2
  · exact tidy_respaced (.single (.between (change.mono known solid))) here.1
  · exact kept x g h y change here.1 here.2

variable {words operators : List String}

/-- No word of the list ends as `in` does. -/
def EndsApart (words : List String) : Prop := ∀ word ∈ words, ¬ ['i', 'n'] <:+ 'i' :: word.toList

instance (words : List String) : Decidable (EndsApart words) :=
  inferInstanceAs (Decidable (∀ word ∈ words, _))

theorem EndsApart.not_suffix (apart : EndsApart words) (plain : PlainWords words) :
    ∀ word ∈ words, ∀ p : List Char, ¬ ['i', 'n'] <:+ p ++ word.toList := by
  intro word member p suffix
  have other := apart word member
  obtain ⟨w, c, spelled⟩ := (List.eq_nil_or_concat word.toList).resolve_left (plain word member).1
  rw [spelled, List.concat_eq_append] at suffix other
  rcases List.eq_nil_or_concat w with rfl | ⟨w, d, rfl⟩
  · obtain ⟨z, same⟩ := suffix
    rw [List.append_cons, List.nil_append] at same
    obtain rfl : 'n' = c := by simpa using (List.append_inj' same rfl).2
    exact other (by simp)
  · have inside := List.suffix_of_suffix_length_le suffix (List.suffix_append p _) (by simp)
    exact other (inside.trans (List.suffix_cons _ _))

theorem lasting_tight (plain : PlainWords operators) (apart : EndsApart operators) :
    Lasting ends operators Tight where
  plain := plain
  apart := apart.not_suffix plain
  shrinks _ _ _ _ empty nonempty _ _ := absurd empty nonempty
  spaced _ _ _ _ _ _ _ _ nonempty empty := absurd empty nonempty

theorem lasting_goesOn (plain : PlainWords words) (apart : EndsApart words) : Lasting ends words GoesOn where
  plain := plain
  apart := apart.not_suffix plain
  shrinks _ _ _ _ here nonempty _ _ := absurd here.1 nonempty
  spaced _ _ _ _ _ _ _ _ nonempty here := absurd here.1 nonempty

theorem lasting_noColon (plain : PlainWords words) (apart : EndsApart words) :
    Lasting ends words NoColon where
  plain := plain
  apart := apart.not_suffix plain
  shrinks _ _ _ _ here _ _ next := by
    rcases next with rfl | rfl
    · exact here
    · simp [NoColon]
  spaced _ _ _ _ _ _ _ _ _ here := here

theorem lasting_braceNext (plain : PlainWords words) (apart : EndsApart words) :
    Lasting ends words BraceNext where
  plain := plain
  apart := apart.not_suffix plain
  shrinks _ _ _ _ here nonempty _ next := by
    rcases next with rfl | rfl
    · exact fun brace => absurd (here brace) nonempty
    · simp [BraceNext]
  spaced _ _ _ _ _ _ _ _ nonempty here := fun brace => absurd (here brace) nonempty

theorem lasting_spaceAtMost {q : Char → Bool} (plain : PlainWords words) (apart : EndsApart words)
    (other : ∀ word ∈ words, ∀ c ∈ word.toList.getLast?, ends c = false) :
    Lasting ends words (SpaceAtMost q) where
  plain := plain
  apart := apart.not_suffix plain
  shrinks _ _ _ _ here _ first _ := fun i before inside => here i (before.trans first) inside
  spaced word member c last ended _ _ _ _ _ := by
    rw [other word member c last] at ended
    exact absurd ended Bool.false_ne_true

theorem mem_drop {rule : Rule} (order : i ≤ j) (member : rule ∈ productionReplacements.drop j) :
    rule ∈ productionReplacements.drop i :=
  (List.drop_sublist_drop_left _ order).subset member

theorem isSolid_of_endsKeyword {c : Char} (ended : endsKeyword c = true) : isSolid c = true := by
  simp only [endsKeyword, Bool.or_eq_true, beq_iff_eq] at ended
  rcases ended with (rfl | rfl) | rfl <;> decide

section stages

variable (tidy : Tidy s)
include tidy

theorem stage_arithmetic (order : 2 ≤ j) :
    Throughout AfterBlank (Trailed arithmeticOperators Tight) none (stage j s) := by
  refine stage_keeps delimiters isSolid order (by decide) (fun _ => id) layout_respaces
    (fun x g h y change here holds => ?_) tidy ?_
  · exact Change.followed_blank change (fun _ => id) (lasting_tight (by decide) (by decide)) (by decide)
      here.leads holds
  · have first : Throughout AfterBlank (Trailed arithmeticOperators Tight) none (stage 1 s) :=
      swept_tight (by decide) (by decide) (by decide)
        (rewrite_swept (tightOperator_advances _) s) (.inl rfl) (by simp)
    exact swept_tight (by decide : equalityOperators ≠ []) (by decide) (by decide)
      (rewrite_swept (tightOperator_advances _) (stage 1 s)) (.inr first) (by simp)

theorem stage_equality (order : 2 ≤ j) :
    Throughout AfterBlank (Trailed equalityOperators Tight) none (stage j s) := by
  refine stage_keeps delimiters isSolid order (by decide) (fun _ => id) layout_respaces
    (fun x g h y change here holds => ?_) tidy ?_
  · exact Change.followed_blank change (fun _ => id) (lasting_tight (by decide) (by decide)) (by decide)
      here.leads holds
  · exact swept_tight (by decide) (by decide) (by decide)
      (rewrite_swept (tightOperator_advances _) (stage 1 s)) (.inl rfl) (by simp)

theorem stage_openBrace (order : 5 ≤ j) : NoneAfter '\x7b' isBlank none (stage j s) := by
  refine stage_keeps delimiters endsCondition order (by decide) (fun _ => isSolid_of_endsCondition) body_respaces
    (fun x g h y change here holds => ?_) tidy ?_
  · exact Change.noBlankAfter change (by decide) (by decide) (by decide) here.leads holds
  · exact blanksAfter_swept rfl (by decide) (rewrite_swept blanksAfter_advances (stage 4 s))
      (stage_tidy 4 tidy).leads

theorem stage_closeBrace (order : 6 ≤ j) : NoBlankBefore '\x7d' none (stage j s) := by
  refine stage_keeps delimiters endsCondition order (by decide) (fun _ => isSolid_of_endsCondition)
    (fun rule member => body_respaces rule (mem_drop (by decide) member))
    (fun x g h y change here holds => ?_) tidy ?_
  · exact Change.noBlankBefore change (by decide) here.leads holds
  · exact closeBrace_swept (rewrite_swept closeBrace_advances (stage 5 s))

theorem stage_keywordLine (order : 9 ≤ j) :
    Throughout AfterNewline (Trailed statementKeywords GoesOn) none (stage j s) := by
  refine stage_keeps delimiters endsCondition order (by decide) (fun _ => isSolid_of_endsCondition)
    (fun rule member => body_respaces rule (mem_drop (by decide) member))
    (fun x g h y change here holds => ?_) tidy ?_
  · exact Change.followed_newline change (fun _ => isSolid_of_endsCondition)
      (lasting_goesOn (by decide) (by decide)) here.flush holds
  · exact swept_keywordLine (rewrite_swept keywordLine_advances (stage 8 s)) (by simp [AfterNewline])

theorem stage_defaultLine (order : 10 ≤ j) :
    Throughout AfterNewline (Trailed ["default"] NoColon) none (stage j s) := by
  refine stage_keeps delimiters endsCondition order (by decide) (fun _ => isSolid_of_endsCondition)
    (fun rule member => body_respaces rule (mem_drop (by decide) member))
    (fun x g h y change here holds => ?_) tidy ?_
  · exact Change.followed_newline change (fun _ => isSolid_of_endsCondition)
      (lasting_noColon (by decide) (by decide)) here.flush holds
  · exact swept_defaultLine (rewrite_swept defaultLine_advances (stage 9 s)) (by simp [AfterNewline])

theorem stage_deferBlock (order : 11 ≤ j) :
    Throughout Apart (Trailed ["defer"] BraceNext) none (stage j s) := by
  refine stage_keeps delimiters endsCondition order (by decide) (fun _ => isSolid_of_endsCondition)
    (fun rule member => body_respaces rule (mem_drop (by decide) member))
    (fun x g h y change here holds => ?_) tidy ?_
  · exact Change.followed_apart change (fun _ => isSolid_of_endsCondition)
      (lasting_braceNext (by decide) (by decide)) holds
  · exact swept_deferBlock (rewrite_swept deferBlock_advances (stage 10 s)) id

theorem stage_returnSpace (order : 12 ≤ j) :
    Throughout Apart (Trailed ["return"] (SpaceAtMost isInlineBlank)) none (stage j s) := by
  refine stage_keeps delimiters endsKeyword order (by decide) (fun _ => isSolid_of_endsKeyword) keyword_respaces
    (fun x g h y change here holds => ?_) tidy ?_
  · exact Change.followed_apart change (fun _ => isSolid_of_endsKeyword)
      (lasting_spaceAtMost (by decide) (by decide) (by decide)) holds
  · exact swept_spaceAtMost (fun _ => isBlank_of_isInlineBlank) (by decide) (by decide)
      returnSpace_spacesAfter (rewrite_swept returnSpace_advances (stage 11 s)) id

theorem stage_keywordSpace (order : 13 ≤ j) :
    Throughout Apart (Trailed spacedKeywords (SpaceAtMost isBlank)) none (stage j s) := by
  refine stage_keeps delimiters (fun _ => false) order (by decide) (by simp) punctuation_respaces
    (fun x g h y change here holds => ?_) tidy ?_
  · exact Change.followed_apart change (by simp)
      (lasting_spaceAtMost (by decide) (by decide) (by simp)) holds
  · exact swept_spaceAtMost (fun _ => id) (by decide) (by decide) keywordSpace_spacesAfter
      (rewrite_swept keywordSpace_advances (stage 12 s)) id

theorem stage_colonSpace (order : 14 ≤ j) :
    NoBlankBefore ':' none (stage j s) ∧ NoneAfter ':' isBlank none (stage j s) := by
  refine stage_keeps delimiters (fun _ => false)
    (N := fun z => NoBlankBefore ':' none z ∧ NoneAfter ':' isBlank none z) order (by decide) (by simp)
    (fun rule member => punctuation_respaces rule (mem_drop (by decide) member))
    (fun x g h y change here holds => ⟨?_, ?_⟩) tidy ?_
  · exact Change.noBlankBefore change (by decide) here.leads holds.1
  · exact Change.noBlankAfter change (by decide) (by decide) (by decide) here.leads holds.2
  · exact colonSpace_swept (rewrite_swept colonSpace_advances (stage 13 s)) (stage_tidy 13 tidy).leads

theorem stage_commaSpace (order : 15 ≤ j) : NoneAfter ',' isBlank none (stage j s) := by
  refine stage_keeps delimiters (fun _ => false) order (by decide) (by simp)
    (fun rule member => punctuation_respaces rule (mem_drop (by decide) member))
    (fun x g h y change here holds => ?_) tidy ?_
  · exact Change.noBlankAfter change (by decide) (by decide) (by decide) here.leads holds
  · exact blanksAfter_swept rfl (by decide) (rewrite_swept blanksAfter_advances (stage 14 s))
      (stage_tidy 14 tidy).leads

theorem stage_separatorAfter_brace (order : 16 ≤ j) : NoneAfter '\x7b' (· == ';') none (stage j s) := by
  have later : productionReplacements.drop 16 = [⟨"separator-after-colon", separatorAfter ":"⟩,
      ⟨"separator-after-closure-in", separatorAfterIn⟩] := rfl
  refine (stage_keeps [":"] (fun _ => false)
    (N := fun z => NoneAfter '\x7b' isBlank none z ∧ NoneAfter '\x7b' (· == ';') none z) order (by decide)
    (by simp) ?_ (fun x g h y change here holds => ⟨?_, ?_⟩) tidy ⟨stage_openBrace tidy (by decide), ?_⟩).2
  · rw [later]
    simpa using ⟨separatorAfter_respaces (by simp), separatorAfterIn_respaces⟩
  · exact Change.noBlankAfter change (by decide) (by decide) (by decide) here.leads holds.1
  · exact Change.noneAfter change (by decide) (by decide) (by decide) holds.1 holds.2
  · exact separatorAfter_swept rfl (by decide) (rewrite_swept separatorAfter_advances (stage 15 s))
      (stage_tidy 15 tidy).leads

theorem stage_separatorAfter_colon (order : 17 ≤ j) : NoneAfter ':' (· == ';') none (stage j s) := by
  have later : productionReplacements.drop 17 = [⟨"separator-after-closure-in", separatorAfterIn⟩] := rfl
  refine (stage_keeps [] (fun _ => false)
    (N := fun z => NoneAfter ':' isBlank none z ∧ NoneAfter ':' (· == ';') none z) order (by decide)
    (by simp) ?_ (fun x g h y change here holds => ⟨?_, ?_⟩) tidy
    ⟨(stage_colonSpace tidy (by decide)).2, ?_⟩).2
  · rw [later]
    simpa using separatorAfterIn_respaces
  · exact Change.noBlankAfter change (by decide) (by decide) (by decide) here.leads holds.1
  · exact Change.noneAfter change (by decide) (by decide) (by simp) holds.1 holds.2
  · exact separatorAfter_swept rfl (by decide) (rewrite_swept separatorAfter_advances (stage 16 s))
      (stage_tidy 16 tidy).leads

end stages

theorem stage_separatorAfterIn (s : List Char) :
    Throughout Apart (fun z => ¬ "in;".toList <+: z) none (stage 18 s) :=
  swept_separatorAfterIn (rewrite_swept separatorAfterIn_advances (stage 17 s)) id

/-- The rules that may find something in a text which the production profile has rewritten: a change of
the spacing by a later rule may complete what they read. -/
def unsettled : List String :=
  ["import-declaration", "attributes-after-content", "attributes", "guard-else-return",
    "guard-else-return-value"]

theorem replacement_settled (tidy : Tidy s) : ∀ rule ∈ productionReplacements, rule.name ∉ unsettled →
    rule.apply (stage 18 s) = stage 18 s := by
  have order : productionReplacements =
      [⟨"assignment-bitwise-shift-operators", tightOperator arithmeticOperators⟩,
        ⟨"equality-operators", tightOperator equalityOperators⟩,
        ⟨"attributes-after-content", attributeLine⟩, ⟨"attributes", attributeSpace⟩,
        ⟨"open-brace-whitespace", blanksAfter "\x7b"⟩, ⟨"close-brace-whitespace", closeBrace⟩,
        ⟨"guard-else-return", guardBare⟩, ⟨"guard-else-return-value", guardResult⟩,
        ⟨"statement-keywords-after-newline", keywordLine⟩, ⟨"default-after-newline", defaultLine⟩,
        ⟨"defer-block", deferBlock⟩, ⟨"return-whitespace", returnSpace⟩,
        ⟨"keyword-whitespace", keywordSpace⟩, ⟨"colon-whitespace", colonSpace⟩,
        ⟨"comma-whitespace", blanksAfter ","⟩, ⟨"separator-after-open-brace", separatorAfter "\x7b"⟩,
        ⟨"separator-after-colon", separatorAfter ":"⟩,
        ⟨"separator-after-closure-in", separatorAfterIn⟩] := rfl
  rw [order]
  simp only [List.forall_mem_cons]
  refine ⟨fun _ => tightOperator_eq_self (by decide) (stage_arithmetic tidy (by decide)),
    fun _ => tightOperator_eq_self (by decide) (stage_equality tidy (by decide)),
    fun settled => absurd (by decide) settled, fun settled => absurd (by decide) settled,
    fun _ => blanksAfter_eq_self rfl (stage_openBrace tidy (by decide)),
    fun _ => closeBrace_eq_self (stage_closeBrace tidy (by decide)),
    fun settled => absurd (by decide) settled, fun settled => absurd (by decide) settled,
    fun _ => keywordLine_eq_self (stage_keywordLine tidy (by decide)),
    fun _ => defaultLine_eq_self (stage_defaultLine tidy (by decide)),
    fun _ => deferBlock_eq_self (stage_deferBlock tidy (by decide)),
    fun _ => spaceAtMost_eq_self (fun _ => isBlank_of_isInlineBlank) returnSpace_spacesAfter
      (stage_returnSpace tidy (by decide)),
    fun _ => spaceAtMost_eq_self (fun _ => id) keywordSpace_spacesAfter (stage_keywordSpace tidy (by decide)),
    fun _ => colonSpace_eq_self (stage_colonSpace tidy (by decide)).1 (stage_colonSpace tidy (by decide)).2,
    fun _ => blanksAfter_eq_self rfl (stage_commaSpace tidy (by decide)),
    fun _ => separatorAfter_eq_self rfl (stage_separatorAfter_brace tidy (by decide)),
    fun _ => separatorAfter_eq_self rfl (stage_separatorAfter_colon tidy (by decide)),
    fun _ => separatorAfterIn_eq_self (stage_separatorAfterIn s), by simp⟩

theorem Change.slash_not_mem {x g h y : List Char} (change : Change marks ends x g h y)
    (plain : '/' ∉ x ++ g ++ y) : '/' ∉ x ++ h ++ y := by
  have absent : '/' ∉ h := by
    intro member
    have spacing := change.spacing'
    exact absurd (spacing '/' member) (by decide)
  simp only [List.mem_append, not_or] at plain ⊢
  exact ⟨⟨plain.1.1, absent⟩, plain.2⟩

theorem wholeLine_eq_self {mark : String} (starts : Stops isInlineBlank mark.toList) (slash : '/' ∈ mark.toList)
    (plain : '/' ∉ s) : (wholeLine mark).rewrite s = s := by
  have filled := List.ne_nil_of_mem slash
  refine rewrite_eq_self (wholeLine_advances starts filled) ?_
  rintro x u after v rfl reads
  obtain ⟨g, r, e, rfl, -⟩ := (reads_wholeLine mark starts filled).1 reads
  simp [slash] at plain

theorem leadingBlanks_eq_self (flush : FlushLeft none s) : leadingBlanks.rewrite s = s := by
  refine rewrite_eq_self leadingBlanks_advances ?_
  rintro x u after v rfl reads
  obtain ⟨rfl, opens, blank, nonempty, -⟩ := reads_leadingBlanks.1 reads
  have stops := flush x (u ++ after) (by simp) opens
  obtain ⟨c, u, rfl⟩ := List.exists_cons_of_ne_nil nonempty
  rw [within_cons] at blank
  simp [blank.1] at stops

theorem removal_settled {embedded : Bool} (flush : FlushLeft none s) (plain : '/' ∉ s) :
    ∀ rule ∈ (production embedded).removals, rule.name ∉ unsettled → rule.apply s = s := by
  have production : ∀ rule ∈ productionRemovals, rule.apply s = s := by
    intro rule member
    have choices := List.mem_map_of_mem (f := Rule.pattern) member
    rw [productionRemovals_patterns] at choices
    simp only [List.mem_cons, List.not_mem_nil, or_false] at choices
    rcases choices with h | h | h | h <;> rw [Rule.apply, h]
    · exact wholeLine_eq_self (by decide) (by decide) plain
    · exact wholeLine_eq_self (by decide) (by decide) plain
    · exact trailingComment_eq_self plain
    · exact leadingBlanks_eq_self flush
  intro rule member settled
  cases embedded with
  | false => exact production rule member
  | true =>
      rcases List.mem_append.1 member with member | member
      · obtain rfl := List.mem_singleton.1 member
        exact absurd (by decide) settled
      · exact production rule member

/-- A text without semicolons and slashes comes out of a second rewriting as it went in just when the
structural pass and the unsettled rules leave it as it is. -/
theorem rewrite_rewrite_iff (embedded : Bool) {s : List Char} (separators : ';' ∉ s) (slashes : '/' ∉ s) :
    (ruleSet ⟨embedded, true⟩).rewrite ((ruleSet ⟨embedded, true⟩).rewrite s) =
        (ruleSet ⟨embedded, true⟩).rewrite s ↔
      (ruleSet ⟨embedded, true⟩).join ((ruleSet ⟨embedded, true⟩).rewrite s) =
          (ruleSet ⟨embedded, true⟩).rewrite s ∧
        ∀ rule ∈ (ruleSet ⟨embedded, true⟩).rules, rule.name ∈ unsettled →
          rule.apply ((ruleSet ⟨embedded, true⟩).rewrite s) = (ruleSet ⟨embedded, true⟩).rewrite s := by
  change (production embedded).rewrite ((production embedded).rewrite s) = (production embedded).rewrite s ↔
    (production embedded).join ((production embedded).rewrite s) = (production embedded).rewrite s ∧
      ∀ rule ∈ (production embedded).rules, rule.name ∈ unsettled →
        rule.apply ((production embedded).rewrite s) = (production embedded).rewrite s
  rw [rewrite_eq_self_iff]
  refine and_congr_right fun _ => ⟨fun every rule member _ => every rule member, fun some rule member => ?_⟩
  by_cases open' : rule.name ∈ unsettled
  · exact some rule member open'
  obtain ⟨z, last⟩ := reduced_last embedded s
  obtain ⟨leads, plain⟩ := reduced_separatorsLead embedded separators slashes
  have tidy : Tidy (reduced embedded s) := ⟨last ▸ productionRemovals_flushLeft z, leads⟩
  rw [rewrite_eq]
  rcases List.mem_append.1 member with member | member
  · refine removal_settled (stage_tidy 18 tidy).flush ?_ rule member open'
    exact (replacements_respaced _).keeps (P := fun z => '/' ∉ z)
      (fun _ _ _ _ change => Change.slash_not_mem change) plain
  · exact replacement_settled tidy rule member open'

theorem rewrite_rewrite_binding :
    ((';' ∉ "let a = [1, 2]\n".toList) ∧ ('/' ∉ "let a = [1, 2]\n".toList)) ∧
      (ruleSet ⟨false, true⟩).rewrite ((ruleSet ⟨false, true⟩).rewrite "let a = [1, 2]\n".toList) =
        (ruleSet ⟨false, true⟩).rewrite "let a = [1, 2]\n".toList :=
  ⟨by decide, (rewrite_rewrite_iff false (by decide) (by decide)).2 ⟨by decide +kernel, by decide +kernel⟩⟩

/-- A line break that goes after a guard has been looked at leaves the guard to a second run. -/
theorem rewrite_moves_on :
    ((';' ∉ "guard let a = f(x,\ny) else {return}\n".toList) ∧
        ('/' ∉ "guard let a = f(x,\ny) else {return}\n".toList) ∧
        ('\x22' ∉ "guard let a = f(x,\ny) else {return}\n".toList)) ∧
      (ruleSet ⟨false, true⟩).rewrite
          ((ruleSet ⟨false, true⟩).rewrite "guard let a = f(x,\ny) else {return}\n".toList) ≠
        (ruleSet ⟨false, true⟩).rewrite "guard let a = f(x,\ny) else {return}\n".toList :=
  ⟨by decide, by decide +kernel⟩

end SourceBundle.Swift
