import SourceBundle.Proofs.JoinedLines
import SourceBundle.Proofs.Embedded.LineFilter
import SourceBundle.Proofs.Production.FixedPoint

/-!
How lines start between the replacements. None is blank, none starts with a blank and none is a comment without text,
so neither cleanup pass finds anything behind the last replacement, and no blank line is there to become a semicolon.
-/

namespace SourceBundle

namespace Text

variable {line s : List Char}

theorem split_of_mem_lines (member : line ∈ lines s) :
    ∃ p q, s = p ++ line ++ q ∧ OpensLine (lastOf none p) ∧ ∀ c ∈ q.head?, c = '\n' := by
  induction s using line_cases with
  | empty =>
      obtain rfl : line = [] := by simpa [lines] using member
      exact ⟨[], [], rfl, opensLine_none, by simp⟩
  | last w inline =>
      rw [lines_last inline, List.mem_singleton] at member
      subst member
      exact ⟨[], [], by simp, opensLine_none, by simp⟩
  | line w s inline ih =>
      rw [lines, cut_append_mark, List.mem_append] at member
      rcases member with member | member
      · change line ∈ lines w at member
        rw [lines_last inline, List.mem_singleton] at member
        subst member
        exact ⟨[], '\n' :: s, by simp, opensLine_none, by simp⟩
      · obtain ⟨p, q, rfl, opens, ends⟩ := ih member
        refine ⟨w ++ '\n' :: p, q, by simp, ?_, ends⟩
        rw [lastOf_append, lastOf_cons]
        cases p with
        | nil => simp
        | cons c p => exact opens

end Text

namespace Swift

open Pattern Text

variable {s : List Char}

structure LinesStand (s : List Char) : Prop where
  start : Stops isBlank s
  breaks : s.IsChain fun c d => c = '\n' → isBlank d = false
  comments : ∀ line ∈ lines s, ¬ HoldsEmptyComment line

theorem LinesStart.linesStand (start : LinesStart s) : LinesStand s where
  start := start.1 [] s rfl (by simp)
  breaks := by
    rw [List.isChain_iff_forall_rel_of_append_cons_cons]
    rintro c d x y rfl rfl
    simpa using start.1 (x ++ ['\n']) (d :: y) (by simp) (by simp)
  comments := by
    rintro line member ⟨g, h, rfl, blank, blank'⟩
    obtain ⟨p, q, rfl, opens, ends⟩ := split_of_mem_lines member
    cases g with
    | cons c g =>
        have stops : Stops isBlank (c :: (g ++ "//".toList ++ h ++ q)) :=
          start.1 p _ (by simp) opens
        rw [within_cons] at blank
        simp [isBlank_of_isInlineBlank blank.1] at stops
    | nil =>
        -- Two slashes at a line start belong to an operator, which neither a blank nor a newline goes on.
        obtain ⟨w, rest⟩ := start.2 p ('/' :: '/' :: (h ++ q)) (by simp) opens (h ++ q) rfl
        cases h with
        | nil => exact absurd (ends '=' (by simpa using congrArg List.head? rest)) (by decide)
        | cons c h =>
            have inline := blank'.head (by simp) rest
            exact absurd inline (by decide)

theorem stage_linesStart (embedded : Bool) (s : List Char) (n : Nat) : LinesStart (stage n (reduced embedded s)) :=
  RuleSet.applyAll_keeps (fun _ member _ here =>
    linesStart_respaced (replacement_respaced (List.mem_of_mem_take member) _) here) (reduced_linesStart embedded s)

/-- Under the production profile the cleanup has nothing to do: at no point of the replacements does a line start with
a blank or hold a comment without text, so a text comes out as the replacements leave it. -/
theorem cleanUp_idle (embedded : Bool) (s : List Char) :
    (∀ n, LinesStand (RuleSet.applyAll ((ruleSet ⟨embedded, true⟩).replacements.take n) (reduced embedded s))) ∧
      (drop emptyCommentLine).rewrite (RuleSet.applyAll (ruleSet ⟨embedded, true⟩).replacements (reduced embedded s)) =
        RuleSet.applyAll (ruleSet ⟨embedded, true⟩).replacements (reduced embedded s) ∧
      newlineRun.rewrite (RuleSet.applyAll (ruleSet ⟨embedded, true⟩).replacements (reduced embedded s)) =
        RuleSet.applyAll (ruleSet ⟨embedded, true⟩).replacements (reduced embedded s) ∧
      (ruleSet ⟨embedded, true⟩).rewrite s =
        RuleSet.applyAll (ruleSet ⟨embedded, true⟩).replacements (reduced embedded s) := by
  have last : LinesStart (RuleSet.applyAll productionReplacements (reduced embedded s)) :=
    stage_linesStart embedded s 18
  exact ⟨fun n => (stage_linesStart embedded s n).linesStand, emptyComment_eq_self last.1 last.2,
    newlineRun_eq_self last.1, rewrite_eq embedded s⟩

end Swift

end SourceBundle
