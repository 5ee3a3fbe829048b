import SourceBundle.Proofs.Lines
import SourceBundle.Proofs.Production.Cleanup

/-!
The two profiles one after the other. The rules about comment lines are filters of lines, and each line that the
cleanup takes is one that the production profile takes as well, so a text may be rewritten under the embedded profile
first and under the production profile then.
-/

namespace SourceBundle.Swift

open Pattern Text

variable {s w : List Char}

/-- The line starts with the mark, blanks in front of it apart. -/
def opensWith (mark : String) (line : List Char) : Bool := mark.toList.isPrefixOf (trimStart line)

def isEmptyComment (line : List Char) : Bool := trim line == "//".toList

theorem inlineBlank_of_blank {g : List Char} (blank : Within isBlank g) (inline : Within isInline g) :
    Within isInlineBlank g := by
  intro c member
  have here := blank c member
  have there := inline c member
  rw [isInline] at there
  rw [isInlineBlank, here, there]
  rfl

theorem wholeLine_takesLines {mark : String} (starts : Stops isBlank mark.toList) (filled : mark.toList ≠ [])
    (inside : Within isInline mark.toList) : (wholeLine mark).TakesLines (opensWith mark) := by
  have starts' : Stops isInlineBlank mark.toList := by
    intro c first
    rw [isInlineBlank, starts c first, Bool.false_and]
  intro before u after v
  rw [reads_wholeLine mark starts' filled]
  constructor
  · rintro ⟨g, r, e, rfl, rfl, opens, blank, inline, ends⟩
    refine ⟨rfl, opens, g ++ mark.toList ++ r, e, rfl, ?_, ?_, ends⟩
    · simp [inside, inline, blank.mono fun _ => isInline_of_isInlineBlank]
    · obtain ⟨c, m, spelled⟩ := List.exists_cons_of_ne_nil filled
      have text : trimStart (g ++ (mark.toList ++ r)) = mark.toList ++ r := by
        apply trimStart_blank (blank.mono fun _ => isBlank_of_isInlineBlank)
        rw [spelled, List.cons_append, stops_cons]
        exact starts c (by simp [spelled])
      rw [opensWith, List.append_assoc, text, List.isPrefixOf_iff_prefix]
      exact List.prefix_append _ _
  · rintro ⟨rfl, opens, w, e, rfl, inline, taken, ends⟩
    rw [opensWith, List.isPrefixOf_iff_prefix] at taken
    obtain ⟨r, text⟩ := taken
    obtain ⟨g, split, blank⟩ := exists_trimStart w
    rw [← text] at split
    subst split
    simp only [within_append] at inline
    exact ⟨g, r, e, by simp, rfl, opens, inlineBlank_of_blank blank inline.1, inline.2.2, ends⟩

theorem emptyComment_takesLines : (drop emptyCommentLine).TakesLines isEmptyComment := by
  intro before u after v
  rw [reads_drop]
  simp only [reads_emptyCommentLine]
  constructor
  · rintro ⟨rfl, w, g, h, e, rfl, -, opens, blank, blank', ends⟩
    refine ⟨rfl, opens, g ++ '/' :: '/' :: h, e, by simp, ?_, ?_, ends⟩
    · simp only [within_append, within_cons]
      exact ⟨blank.mono fun _ => isInline_of_isInlineBlank, by decide, by decide,
        blank'.mono fun _ => isInline_of_isInlineBlank⟩
    · have front : trimStart (g ++ '/' :: '/' :: h) = '/' :: '/' :: h :=
        trimStart_blank (blank.mono fun _ => isBlank_of_isInlineBlank) ((stops_cons _ _ _).2 (by decide))
      have back : trimStart (h.reverse ++ ['/', '/']) = ['/', '/'] := by
        apply trimStart_blank _ ((stops_cons _ _ _).2 (by decide))
        intro c member
        exact isBlank_of_isInlineBlank (blank' c (List.mem_reverse.1 member))
      have text : ('/' :: '/' :: h).reverse = h.reverse ++ ['/', '/'] := by simp
      rw [trimStart] at back
      rw [isEmptyComment, trim, front, trimEnd, text, back]
      rfl
  · rintro ⟨rfl, opens, w, e, rfl, inline, taken, ends⟩
    rw [isEmptyComment, beq_iff_eq, trim] at taken
    obtain ⟨g, front, blank⟩ := exists_trimStart w
    obtain ⟨h, back, blank'⟩ := exists_trimEnd (trimStart w)
    rw [taken] at back
    rw [back] at front
    subst front
    simp only [within_append] at inline
    exact ⟨rfl, _, g, h, e, by simp, rfl, opens, inlineBlank_of_blank blank inline.1,
      inlineBlank_of_blank blank' inline.2.2, ends⟩

theorem wholeLine_rewrite (mark : String) {m : List Char} (spelled : mark.toList = '/' :: m)
    (inside : Within isInline m) (s : List Char) :
    (wholeLine mark).rewrite s = keepLines (fun w => !opensWith mark w) s := by
  apply rewrite_takesLines
  · apply wholeLine_takesLines
    · rw [spelled, stops_cons]
      decide
    · simp [spelled]
    · rw [spelled, within_cons]
      exact ⟨by decide, inside⟩
  · simp [opensWith, spelled, trimStart]

theorem emptyComment_rewrite (s : List Char) :
    (drop emptyCommentLine).rewrite s = keepLines (fun w => !isEmptyComment w) s :=
  rewrite_takesLines emptyComment_takesLines (by decide) s

theorem opensWith_of_isEmptyComment (comment : isEmptyComment w = true) : opensWith "//" w = true := by
  rw [isEmptyComment, beq_iff_eq, trim] at comment
  obtain ⟨h, back, -⟩ := exists_trimEnd (trimStart w)
  rw [opensWith, List.isPrefixOf_iff_prefix, back, comment]
  exact List.prefix_append _ _

/-- The comment lines that the cleanup takes do not matter to the removals of the production profile. -/
theorem productionRemovals_emptyComment (s : List Char) :
    RuleSet.applyAll productionRemovals ((drop emptyCommentLine).rewrite s) =
      RuleSet.applyAll productionRemovals s := by
  have order : ∀ z, RuleSet.applyAll productionRemovals z = leadingBlanks.rewrite (trailingComment.rewrite
      ((wholeLine "//").rewrite ((wholeLine "///").rewrite z))) := fun _ => rfl
  -- All three rules are filters of lines, and a line that the cleanup takes is one that `//` takes.
  have absorbed : (fun w => !opensWith "//" w && (!opensWith "///" w && !isEmptyComment w)) =
      fun w => !opensWith "//" w && !opensWith "///" w := by
    funext w
    cases comment : isEmptyComment w with
    | false => simp
    | true => simp [opensWith_of_isEmptyComment comment]
  have lines : (wholeLine "//").rewrite ((wholeLine "///").rewrite ((drop emptyCommentLine).rewrite s)) =
      (wholeLine "//").rewrite ((wholeLine "///").rewrite s) := by
    simp only [wholeLine_rewrite "//" rfl (by decide), wholeLine_rewrite "///" rfl (by decide),
      emptyComment_rewrite, keepLines_keepLines, absorbed]
  rw [order, order, lines]

/-- Rewriting a text under both profiles at once is rewriting it under the embedded one and the result under the
production one. -/
theorem rewrite_profiles (s : List Char) :
    (ruleSet ⟨true, true⟩).rewrite s = (ruleSet ⟨false, true⟩).rewrite ((ruleSet ⟨true, false⟩).rewrite s) := by
  have split : reduced true s = RuleSet.applyAll productionRemovals
      (RuleSet.applyAll embeddedRemovals ((production true).join s)) := List.foldl_append
  calc (production true).rewrite s
      = RuleSet.applyAll productionReplacements (reduced true s) := rewrite_eq true s
    _ = RuleSet.applyAll productionReplacements (RuleSet.applyAll productionRemovals
          (RuleSet.applyAll embeddedRemovals ((production true).join s))) := by
        rw [split]
    _ = RuleSet.applyAll productionReplacements (reduced false ((drop emptyCommentLine).rewrite
          (RuleSet.applyAll embeddedRemovals ((production true).join s)))) := by
        rw [← productionRemovals_emptyComment]
        rfl
    _ = (production false).rewrite ((ruleSet ⟨true, false⟩).rewrite s) := by
        rw [rewrite_eq]
        rfl

end SourceBundle.Swift
