import SourceBundle.Proofs.Production.FixedPoint
import Mathlib.Data.List.Chain

/-!
The normal form of the production profile: which blanks, semicolons and line breaks no rewritten text has.
Each clause is set up by one replacement, and the changes of spacing that the later ones make keep it.
-/

namespace SourceBundle.Swift

open Pattern Text

variable {s : List Char}

/-- A text without blanks at the places where the production profile drops them, and without the semicolons and
line breaks that it takes back. -/
structure NormalForm (s : List Char) : Prop where
  start : Stops isBlank s
  lines : s.IsChain fun c d => c = '\n' → isBlank d = false
  /-- Neither a blank nor a semicolon follows a brace that opens. -/
  openBrace : s.IsChain fun c d => c = '\x7b' → isSpacing d = false
  closeBrace : s.IsChain fun c d => d = '\x7d' → isBlank c = false
  colonLeft : s.IsChain fun c d => d = ':' → isBlank c = false
  colonRight : s.IsChain fun c d => c = ':' → isSpacing d = false
  comma : s.IsChain fun c d => c = ',' → isBlank d = false
  /-- No operator of the two lists stands between blanks. -/
  operator : ∀ operator ∈ arithmeticOperators ++ equalityOperators, ∀ x c d y,
    s = x ++ c :: (operator.toList ++ d :: y) → isBlank c = true → isBlank d = false
  /-- No line but the first starts with `defer`, `switch`, `return` or `case` as a whole word. -/
  keyword : ∀ word ∈ statementKeywords, ∀ x y,
    s = x ++ '\n' :: (word.toList ++ y) → ∃ c ∈ y.head?, isWord c = true
  /-- No line but the first starts with `default` and a colon. -/
  default : ∀ x k y, s = x ++ '\n' :: ("default".toList ++ (k ++ ':' :: y)) → ¬ Within isBlank k
  /-- No semicolon follows `in` as a whole word. -/
  closureHead : ∀ x y, s = x ++ ("in;".toList ++ y) → ∃ c ∈ x.getLast?, isWord c = true

theorem noneAfter_chain {m : Char} {q : Char → Bool} (none : NoneAfter m q none s) :
    s.IsChain fun c d => c = m → q d = false := by
  rw [List.isChain_iff_forall_rel_of_append_cons_cons]
  intro c d x y split same
  have next : Stops q (d :: y) := none (x ++ [c]) (d :: y) (by simp [split]) (by simp [same])
  simpa using next

theorem noBlankBefore_chain {m : Char} (none : NoBlankBefore m none s) :
    s.IsChain fun c d => d = m → isBlank c = false := by
  rw [List.isChain_iff_forall_rel_of_append_cons_cons]
  intro c d x y split same
  by_contra blank
  have next : Stops (· == m) (d :: y) := none (x ++ [c]) (d :: y) (by simp [split]) (by simpa using blank)
  simp [same] at next

theorem flushLeft_start (flush : FlushLeft none s) : Stops isBlank s := flush [] s rfl (by simp)

theorem flushLeft_chain (flush : FlushLeft none s) : s.IsChain fun c d => c = '\n' → isBlank d = false := by
  rw [List.isChain_iff_forall_rel_of_append_cons_cons]
  intro c d x y split same
  have next : Stops isBlank (d :: y) := flush (x ++ [c]) (d :: y) (by simp [split]) (by simp [same])
  simpa using next

theorem noSpacing_chain {m : Char} (blanks : NoneAfter m isBlank none s) (separators : NoneAfter m (· == ';') none s) :
    s.IsChain fun c d => c = m → isSpacing d = false := by
  apply noneAfter_chain
  intro p q split last
  have blank := blanks p q split last
  have separator := separators p q split last
  intro c first
  rw [isSpacing, blank c first, Bool.false_or]
  exact separator c first

theorem operator_tight {operators : List String}
    (settled : Throughout AfterBlank (Trailed operators Tight) none s) {operator : String}
    (member : operator ∈ operators) {x y : List Char} {c d : Char}
    (split : s = x ++ c :: (operator.toList ++ d :: y)) (before : isBlank c = true) : isBlank d = false := by
  obtain ⟨k, z, run, blank, stops⟩ := exists_run isBlank (d :: y)
  have tight : Tight k z.head? := settled (x ++ [c]) (operator.toList ++ d :: y) (by simp [split])
    (by simpa using before) operator member k z (by rw [run]) blank stops
  rw [Tight] at tight
  rw [tight, List.nil_append] at run
  rw [← run] at stops
  simpa using stops

theorem keyword_goesOn (settled : Throughout AfterNewline (Trailed statementKeywords GoesOn) none s)
    {word : String} (member : word ∈ statementKeywords) {x y : List Char}
    (split : s = x ++ '\n' :: (word.toList ++ y)) : ∃ c ∈ y.head?, isWord c = true := by
  obtain ⟨k, z, rfl, blank, stops⟩ := exists_run isBlank y
  have goesOn : GoesOn k z.head? := settled (x ++ ['\n']) (word.toList ++ (k ++ z)) (by simp [split])
    (by simp [AfterNewline]) word member k z rfl blank stops
  obtain ⟨rfl, letter⟩ := goesOn
  exact letter

theorem default_noColon (settled : Throughout AfterNewline (Trailed ["default"] NoColon) none s)
    {x k y : List Char} (split : s = x ++ '\n' :: ("default".toList ++ (k ++ ':' :: y))) : ¬ Within isBlank k := by
  intro blank
  have noColon : NoColon k (':' :: y).head? := settled (x ++ ['\n']) ("default".toList ++ (k ++ ':' :: y))
    (by simp [split]) (by simp [AfterNewline]) "default" (by simp) k (':' :: y) rfl blank
    ((stops_cons _ _ _).2 (by decide))
  exact noColon rfl

theorem closureHead_word (settled : Throughout Apart (fun z => ¬ "in;".toList <+: z) none s) {x y : List Char}
    (split : s = x ++ ("in;".toList ++ y)) : ∃ c ∈ x.getLast?, isWord c = true := by
  by_contra noLetter
  apply settled x ("in;".toList ++ y) split _ (List.prefix_append _ _)
  intro c last
  rw [lastOf_none] at last
  by_contra letter
  exact noLetter ⟨c, last, by simpa using letter⟩

/-- The replacements bring a text into normal form whose lines start with no blank and whose semicolons lead
statements. -/
theorem stage_normalForm (tidy : Tidy s) : NormalForm (stage 18 s) where
  start := flushLeft_start (stage_tidy 18 tidy).flush
  lines := flushLeft_chain (stage_tidy 18 tidy).flush
  openBrace := noSpacing_chain (stage_openBrace tidy (by decide)) (stage_separatorAfter_brace tidy (by decide))
  closeBrace := noBlankBefore_chain (stage_closeBrace tidy (by decide))
  colonLeft := noBlankBefore_chain (stage_colonSpace tidy (by decide)).1
  colonRight := noSpacing_chain (stage_colonSpace tidy (by decide)).2 (stage_separatorAfter_colon tidy (by decide))
  comma := noneAfter_chain (stage_commaSpace tidy (by decide))
  operator := by
    intro operator member x c d y split before
    rcases List.mem_append.1 member with member | member
    · exact operator_tight (stage_arithmetic tidy (by decide)) member split before
    · exact operator_tight (stage_equality tidy (by decide)) member split before
  keyword _ member _ _ split := keyword_goesOn (stage_keywordLine tidy (by decide)) member split
  default _ _ _ split := default_noColon (stage_defaultLine tidy (by decide)) split
  closureHead _ _ split := closureHead_word (stage_separatorAfterIn s) split

/-- A text without semicolons comes out of the production profile in normal form. -/
theorem normalForm_rewrite (embedded : Bool) {s : List Char} (separators : ';' ∉ s) :
    NormalForm ((ruleSet ⟨embedded, true⟩).rewrite s) := by
  change NormalForm ((production embedded).rewrite s)
  rw [rewrite_eq]
  obtain ⟨z, last⟩ := reduced_last embedded s
  have flush : FlushLeft none (reduced embedded s) := last ▸ productionRemovals_flushLeft z
  exact stage_normalForm ⟨flush, reduced_leads embedded separators⟩

theorem normalForm_rewrite_closure :
    (';' ∉ "f \x7b x in // note\n\n  return x\n    & mask ,\t1 \x7d\n".toList) ∧
      NormalForm ((ruleSet ⟨true, true⟩).rewrite
        "f \x7b x in // note\n\n  return x\n    & mask ,\t1 \x7d\n".toList) :=
  ⟨by decide, normalForm_rewrite true (by decide)⟩

end SourceBundle.Swift
