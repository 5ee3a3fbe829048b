import SourceBundle.Proofs.Embedded.OnePass

/-!
The embedded profile a second time. The structural pass leaves no declaration, but lines go after it, and a
declaration may span several lines. A line that goes holds no parenthesis, unless in a comment, so it may stand in a
declaration: what is one without the line is one with it.
-/

namespace SourceBundle

open Text

namespace Text

variable {w : List Char}

theorem lines_newline (inline : Within isInline w) (s : List Char) : lines (w ++ '\n' :: s) = w :: lines s := by
  rw [lines, cut_append_mark, ← lines, lines_last inline]
  rfl

theorem tail_cut_append (mark : Char) (u s : List Char) : (cut mark s).tail ⊆ (cut mark (u ++ s)).tail := by
  induction u with
  | nil => exact List.Subset.refl _
  | cons c u ih =>
      rw [List.cons_append, cut_cons]
      obtain ⟨first, later, stretches⟩ := List.exists_cons_of_ne_nil (cut_ne_nil mark (u ++ s))
      rw [stretches] at ih ⊢
      split
      · exact fun line member => List.mem_cons_of_mem _ (ih member)
      · exact ih

end Text

namespace Swift

open Pattern

variable {before : Option Char} {keep : List Char → Bool} {b d line out s w x y : List Char}

def Declared (s : List Char) : Prop := ∃ x d y, s = x ++ (d ++ y) ∧ Declares (lastOf none x) d

/-- No line of the text holds a parenthesis behind `//`. -/
def PlainComments (s : List Char) : Prop :=
  ∀ line ∈ lines s, ∀ rest ∈ line.tails, "//".toList <+: rest → Within isInArguments rest

instance : DecidablePred PlainComments := fun s =>
  inferInstanceAs (Decidable (∀ line ∈ lines s, ∀ rest ∈ line.tails, _ → _))

theorem joined_lines (joined : RuleSet.Joined ';' caseDeclaration before s out) :
    ∃ first later first' later', lines s = first :: later ∧ lines out = first' :: later' ∧
      (first' = first ∨ OpensLine before ∧ first'.head? = some ';') ∧
      ∀ line ∈ later', line ∈ later ∨ line.head? = some ';' := by
  -- The first line is another one only where a line starts behind `before`, and then the separator opens it.
  induction joined with
  | done => exact ⟨[], [], [], [], rfl, rfl, .inl rfl, by simp⟩
  | @join before u after v out reads _ ih =>
      obtain ⟨first, later, first', later', source, result, -, others⟩ := ih
      obtain ⟨first'', later'', whole⟩ := List.exists_cons_of_ne_nil (cut_ne_nil '\n' (u ++ after))
      have inside := tail_cut_append '\n' u after
      rw [whole] at inside
      rw [lines] at source result
      rw [source] at inside
      have unbroken : '\n' ∉ RuleSet.oneLine ';' v := fun member =>
        absurd (oneLine_inline v _ member) (by decide)
      obtain ⟨front, rest, same, joined⟩ := cut_append unbroken out
      rw [result] at same
      obtain ⟨rfl, rfl⟩ := List.cons.inj same
      refine ⟨first'', later'', _, later', whole, joined, .inr ⟨?_, rfl⟩, fun line member => ?_⟩
      · exact (reads_caseDeclaration_iff.1 reads).2.1
      · exact (others line member).imp_left fun here => inside here
  | @skip before c s out fails _ ih =>
      obtain ⟨first, later, first', later', source, result, start, others⟩ := ih
      rw [lines] at source result
      rw [lines, lines, cut_cons, cut_cons, source, result]
      by_cases newline : c = '\n'
      · rw [if_pos newline, if_pos newline]
        refine ⟨[], _, [], _, rfl, rfl, .inl rfl, fun line member => ?_⟩
        rcases List.mem_cons.1 member with rfl | member
        · rcases start with rfl | ⟨-, marked⟩
          · simp
          · exact .inr marked
        · exact (others line member).imp_left (List.mem_cons_of_mem _)
      · rw [if_neg newline, if_neg newline]
        refine ⟨_, later, _, later', rfl, rfl, .inl ?_, others⟩
        rcases start with rfl | ⟨opens, -⟩
        · rfl
        · exact absurd ((opensLine_some c).1 opens) newline

theorem mem_lines_join (member : line ∈ lines (RuleSet.joinDeclarations ';' caseDeclaration s))
    (unmarked : line.head? ≠ some ';') : line ∈ lines s := by
  obtain ⟨first, later, first', later', source, result, start, others⟩ :=
    joined_lines (RuleSet.joinDeclarations_joined ';' caseDeclaration_advances s)
  rw [result] at member
  rw [source]
  rcases List.mem_cons.1 member with rfl | member
  · exact List.mem_cons.2 (.inl (start.resolve_right fun marked => unmarked marked.2))
  · exact List.mem_cons_of_mem _ ((others line member).resolve_right unmarked)

theorem Declared.behind (declared : Declared s) (w : List Char) : Declared (w ++ '\n' :: s) := by
  obtain ⟨x, d, y, rfl, opens, spans⟩ := declared
  refine ⟨w ++ '\n' :: x, d, y, by simp, ?_, spans⟩
  cases x with
  | nil => simp
  | cons c x => simpa using opens

/-- Up to a parenthesis the lines that went hold none. -/
theorem closes_of_keepLines (plain : ∀ line ∈ lines s, keep line = false → Within isInArguments line)
    (same : keepLines keep s = b ++ ')' :: y) (inside : Within isInArguments b) :
    ∃ a z, s = a ++ ')' :: z ∧ Within isInArguments a := by
  induction s using line_cases generalizing b with
  | empty => simp at same
  | last w inline filled =>
      rw [keepLines_last inline filled] at same
      split at same
      · exact ⟨b, y, same, inside⟩
      · simp at same
  | line w s inline ih =>
      rw [lines_newline inline] at plain
      have onward := fun {b} => @ih b fun line member => plain line (List.mem_cons_of_mem _ member)
      rw [keepLines_line inline] at same
      cases kept : keep w with
      | false =>
          rw [kept, if_neg Bool.false_ne_true, List.nil_append] at same
          obtain ⟨a, z, rfl, inside⟩ := onward same inside
          refine ⟨w ++ '\n' :: a, z, by simp, ?_⟩
          rw [within_append, within_cons]
          exact ⟨plain w (by simp) kept, by decide, inside⟩
      | true =>
          rw [kept, if_pos rfl, List.append_assoc, List.singleton_append] at same
          -- The parenthesis is on a later line, or it is on this one.
          rcases List.append_eq_append_iff.1 same with ⟨r, rfl, rest⟩ | ⟨r, rfl, rest⟩
          · rw [within_append] at inside
            cases r with
            | nil => exact absurd (List.cons.inj rest).1 (by decide)
            | cons c r =>
                obtain ⟨rfl, behind⟩ := List.cons.inj rest
                rw [within_cons] at inside
                obtain ⟨a, z, rfl, inside'⟩ := onward behind inside.2.2
                refine ⟨w ++ '\n' :: a, z, by simp, ?_⟩
                rw [within_append, within_cons]
                exact ⟨inside.1, by decide, inside'⟩
          · cases r with
            | nil => exact absurd (List.cons.inj rest).1 (by decide)
            | cons c r =>
                obtain ⟨rfl, -⟩ := List.cons.inj rest
                exact ⟨b, r ++ '\n' :: s, by simp, inside⟩

/-- Below a line with its heading a declaration in the lines that are kept goes on in all the lines. -/
theorem declared_of_heading (plain : ∀ line ∈ lines s, keep line = false → Within isInArguments line)
    (inline : Within isInline w) (same : w ++ '\n' :: keepLines keep s = d ++ y) (spans : SpansLines d) :
    Declared (w ++ '\n' :: s) := by
  obtain ⟨h, b, rfl, heading, inside, broken⟩ := spans
  obtain ⟨p, q, rfl, unbroken⟩ := List.eq_append_cons_of_mem broken
  have inline' : Within isInline (h ++ '(' :: p) := by
    rw [within_append, within_cons]
    refine ⟨heading.inside.1.mono fun c here => ?_, by decide, fun c member => ?_⟩
    · rw [isHeading, Bool.and_eq_true] at here
      exact here.2
    · rw [isInline, bne_iff_ne]
      rintro rfl
      exact unbroken member
  have closed : ∀ z, Stops isInline ('\n' :: z) := fun _ => (stops_cons _ _ _).2 newline_not_inline
  have whole : w ++ '\n' :: keepLines keep s = (h ++ '(' :: p) ++ '\n' :: (q ++ ')' :: y) := by
    rw [same]
    simp
  -- The first line of the declaration is that line.
  obtain ⟨rfl, rest⟩ := run_unique whole inline inline' (closed _) (closed _)
  rw [within_append, within_cons] at inside
  obtain ⟨a, z, rfl, inside'⟩ := closes_of_keepLines plain (List.cons.inj rest).2 inside.2.2
  refine ⟨[], h ++ '(' :: (p ++ '\n' :: a ++ [')']), z, by simp, opensLine_none, h, p ++ '\n' :: a, rfl, heading, ?_,
    by simp⟩
  rw [within_append, within_cons]
  exact ⟨inside.1, by decide, inside'⟩

theorem Declared.of_keepLines (plain : ∀ line ∈ lines s, keep line = false → Within isInArguments line)
    (declared : Declared (keepLines keep s)) : Declared s := by
  obtain ⟨x, d, y, same, opens, spans⟩ := declared
  induction s using line_cases generalizing x with
  | empty => exact ⟨x, d, y, same, opens, spans⟩
  | last w inline filled =>
      rw [keepLines_last inline filled] at same
      split at same
      · exact ⟨x, d, y, same, opens, spans⟩
      · obtain ⟨rfl, rest⟩ := List.append_eq_nil_iff.1 same.symm
        obtain ⟨rfl, rfl⟩ := List.append_eq_nil_iff.1 rest
        exact absurd ⟨opens, spans⟩ not_declares_nil
  | line w s inline ih =>
      rw [lines_newline inline] at plain
      have plain' := fun line (member : line ∈ lines s) => plain line (List.mem_cons_of_mem _ member)
      rw [keepLines_line inline] at same
      cases kept : keep w with
      | false =>
          rw [kept, if_neg Bool.false_ne_true, List.nil_append] at same
          exact (ih plain' x same opens).behind w
      | true =>
          rw [kept, if_pos rfl, List.append_assoc, List.singleton_append] at same
          -- A declaration starts where a line does, so with this line or behind it.
          by_cases first : x = []
          · rw [first, List.nil_append] at same
            exact declared_of_heading plain' inline same spans
          · rcases List.append_eq_append_iff.1 same with ⟨r, rfl, rest⟩ | ⟨r, rfl, -⟩
            · cases r with
              | nil =>
                  rw [List.append_nil] at opens first
                  exact absurd opens (not_opensLine first inline)
              | cons c r =>
                  obtain ⟨rfl, behind⟩ := List.cons.inj rest
                  refine (ih plain' r behind ?_).behind w
                  cases r with
                  | nil => exact opensLine_none
                  | cons c r => simpa using opens
            · rw [within_append] at inline
              exact absurd opens (not_opensLine first inline.1)

theorem join_eq_self (none : ¬ Declared s) : RuleSet.joinDeclarations ';' caseDeclaration s = s := by
  have copied : ∀ before s, (∀ x d y, s = x ++ (d ++ y) → ¬ Declares (lastOf before x) d) →
      RuleSet.Joined ';' caseDeclaration before s s := by
    intro before s
    induction s generalizing before with
    | nil => exact fun _ => .done
    | cons c s ih =>
        intro nowhere
        refine .skip (fun u after v split reads => ?_) (ih (some c) fun x d y split => ?_)
        · exact nowhere [] u after split (reads_caseDeclaration_iff.1 reads).2
        · exact nowhere (c :: x) d y (by rw [split]; rfl)
  exact joined_unique (RuleSet.joinDeclarations_joined ';' caseDeclaration_advances s)
    (copied .none s fun x d y split declares => none ⟨x, d, y, split, declares⟩)

theorem join_undeclared (s : List Char) : ¬ Declared (RuleSet.joinDeclarations ';' caseDeclaration s) := by
  rintro ⟨x, d, y, same, declares⟩
  exact joined_undeclared (RuleSet.joinDeclarations_joined ';' caseDeclaration_advances s) same declares

theorem isInArguments_of_isInlineBlank {c : Char} (blank : isInlineBlank c = true) : isInArguments c = true := by
  have here := isHeading_of_isInlineBlank blank
  rw [isHeading, Bool.and_eq_true] at here
  exact here.1

theorem HoldsEmptyComment.inArguments (comment : HoldsEmptyComment line) : Within isInArguments line := by
  obtain ⟨g, h, rfl, blank, blank'⟩ := comment
  simp only [within_append]
  exact ⟨⟨blank.mono fun _ => isInArguments_of_isInlineBlank, by decide⟩,
    blank'.mono fun _ => isInArguments_of_isInlineBlank⟩

theorem DeclaresImport.inArguments (imports : DeclaresImport line)
    (plain : ∀ rest ∈ line.tails, "//".toList <+: rest → Within isInArguments rest) : Within isInArguments line := by
  obtain ⟨front, e, rfl, -, part, g, m, h, k, rfl, blank, mark, blank', comment⟩ := imports.split
  have front' : Within isInArguments front := part.mono fun c here => by
    rw [isInArguments, Bool.and_eq_true, bne_iff_ne, bne_iff_ne]
    exact ⟨ne_of_isImportPart here (by decide), ne_of_isImportPart here (by decide)⟩
  have mark : Within isInArguments m := by
    rcases mark with rfl | rfl <;> decide
  have comment : Within isInArguments k := by
    rcases comment with rfl | ⟨r, rfl, -⟩
    · exact within_nil _
    · refine plain _ ?_ ⟨r, rfl⟩
      rw [List.mem_tails]
      exact ⟨front ++ (g ++ m ++ h), by simp⟩
  simp only [within_append]
  exact ⟨front', ⟨⟨blank.mono fun _ => isInArguments_of_isInlineBlank, mark⟩,
    blank'.mono fun _ => isInArguments_of_isInlineBlank⟩, comment⟩

theorem DeclaresImport.unmarked (imports : DeclaresImport line) : line.head? ≠ some ';' := by
  obtain ⟨front, e, rfl, filled, part, -⟩ := imports.split
  obtain ⟨c, front, rfl⟩ := List.exists_cons_of_ne_nil filled
  rw [List.cons_append, List.head?_cons, ne_eq, Option.some.injEq]
  exact ne_of_isImportPart (part c (by simp)) (by decide)

theorem embedded_passes (s : List Char) : (ruleSet ⟨true, false⟩).rewrite s = (drop emptyCommentLine).rewrite
    ((drop importLine).rewrite (RuleSet.joinDeclarations ';' caseDeclaration s)) := rfl

theorem rewrite_undeclared (plain : PlainComments s) : ¬ Declared ((ruleSet ⟨true, false⟩).rewrite s) := by
  rw [embedded_passes, emptyCommentLine_readsLines.rewrite, importLine_readsLines.rewrite]
  intro declared
  refine join_undeclared s ((declared.of_keepLines fun line _ gone => ?_).of_keepLines fun line member gone => ?_)
  · have comment : HoldsEmptyComment line := by simpa using gone
    exact comment.inArguments
  · have imports : DeclaresImport line := by simpa using gone
    exact imports.inArguments (plain line (mem_lines_join member imports.unmarked))

/-- Rewriting under the embedded profile what was rewritten under it changes nothing, where no comment of the text it
starts from holds a parenthesis. -/
theorem rewrite_embedded_again (s : List Char) (plain : PlainComments s) :
    (ruleSet ⟨true, false⟩).rewrite ((ruleSet ⟨true, false⟩).rewrite s) = (ruleSet ⟨true, false⟩).rewrite s := by
  have comments := emptyCommentLine_readsLines.rewrite
  have imports := importLine_readsLines.rewrite
  calc (ruleSet ⟨true, false⟩).rewrite ((ruleSet ⟨true, false⟩).rewrite s)
      = (drop emptyCommentLine).rewrite ((drop importLine).rewrite ((ruleSet ⟨true, false⟩).rewrite s)) := by
        rw [embedded_passes ((ruleSet ⟨true, false⟩).rewrite s), join_eq_self (rewrite_undeclared plain)]
    _ = (ruleSet ⟨true, false⟩).rewrite s := by
        rw [embedded_passes s]
        simp only [comments, imports, keepLines_keepLines]
        congr 1
        funext line
        cases decide (HoldsEmptyComment line) <;> cases decide (DeclaresImport line) <;> rfl

def importedEnum : String :=
  "import A // b\nenum E \x7b\n  case a(\n    x: Int\n  )\n  case b((Int),\n//\n    Int)\n\x7d\n"

def bundledEnum : String := "enum E \x7b\n;case a(x: Int)\n  case b((Int),\n    Int)\n\x7d\n"

theorem rewrite_embedded_again_enum : PlainComments importedEnum.toList ∧
    (ruleSet ⟨true, false⟩).rewrite importedEnum.toList = bundledEnum.toList ∧
      (ruleSet ⟨true, false⟩).rewrite bundledEnum.toList = bundledEnum.toList := by
  have plain : PlainComments importedEnum.toList := by decide +kernel
  have once : (ruleSet ⟨true, false⟩).rewrite importedEnum.toList = bundledEnum.toList := by decide +kernel
  have again := rewrite_embedded_again importedEnum.toList plain
  rw [once] at again
  exact ⟨plain, once, again⟩

/-- Without such a comment the arguments of the case go on up to a closing parenthesis. -/
example : let once := (ruleSet ⟨true, false⟩).rewrite "case a(x,\nimport B // (\ny)\n".toList
    once = "case a(x,\ny)\n".toList ∧ (ruleSet ⟨true, false⟩).rewrite once = ";case a(x,y)\n".toList := by
  decide +kernel

end Swift

end SourceBundle
