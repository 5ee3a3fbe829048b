import SourceBundle.Proofs.ByteSizes
import SourceBundle.Proofs.Places
import SourceBundle.Swift.RuleSet
import Mathlib.Data.List.Induction

/-!
The removals of the production profile. After them no line starts with a blank, none is blank, and
none starts with a comment.
-/

namespace SourceBundle.Swift

open Pattern Text

variable {before o : Option Char} {s u after v out : List Char}

/-- A comment opens here, blanks within the line in front of it apart. -/
def CommentAhead (s : List Char) : Prop :=
  ∃ g z, Within isInlineBlank g ∧ s = g ++ '/' :: '/' :: z

def CommentHere (s : List Char) : Prop := ∃ z, s = '/' :: '/' :: z

abbrev FlushLeft : Option Char → List Char → Prop := Throughout OpensLine (Stops isBlank)

abbrev NoCommentLine : Option Char → List Char → Prop := Throughout OpensLine fun q => ¬ CommentAhead q

abbrev NoCommentStart : Option Char → List Char → Prop := Throughout OpensLine fun q => ¬ CommentHere q

def wholeLine (mark : String) : Pattern :=
  drop (lineStart ++ gap ++ literal mark ++ restOfLine ++ lineEnd)

def trailingComment : Pattern := drop (someGap ++ literal "//" ++ restOfLine)

def leadingBlanks : Pattern := drop (lineStart ++ someBlanks)

theorem productionRemovals_patterns :
    productionRemovals.map Rule.pattern =
      [wholeLine "///", wholeLine "//", trailingComment, leadingBlanks] := rfl

theorem reads_wholeLine (mark : String) (starts : Stops isInlineBlank mark.toList)
    (filled : mark.toList ≠ []) :
    (wholeLine mark).Reads before u after v ↔
      ∃ g r e, u = g ++ mark.toList ++ r ++ e ∧ v = [] ∧ OpensLine before ∧
        Within isInlineBlank g ∧ Within isInline r ∧ (e = ['\n'] ∨ e = [] ∧ after = []) := by
  simp only [wholeLine, gap, literal, restOfLine, lineEnd, newline, reads_drop, reads_append, Reads]
  constructor
  · rintro ⟨rfl, _, _, e, _, _, rfl, rfl, ⟨_, _, _, r, rfl, rfl, ⟨_, _, _, _, rfl, rfl, ⟨_, _, _, g, rfl,
      rfl, ⟨rfl, rfl, opens⟩, blank, -, -, rfl⟩, rfl, rfl⟩, inline, -, -, rfl⟩, ends⟩
    refine ⟨g, r, e, by simp, rfl, opens, blank, inline, ?_⟩
    rcases ends with ⟨rfl, -⟩ | ⟨rfl, -, rfl⟩
    · exact .inl rfl
    · exact .inr ⟨rfl, rfl⟩
  · rintro ⟨g, r, e, rfl, rfl, opens, blank, inline, ends⟩
    obtain ⟨c, s, spelled⟩ := List.exists_cons_of_ne_nil filled
    rw [spelled, stops_cons] at starts
    have closed : Stops isInline (e ++ after) := by
      rcases ends with rfl | ⟨rfl, rfl⟩ <;> simp [isInline]
    refine ⟨rfl, _, g ++ mark.toList ++ r, e, _, e, rfl, rfl, ⟨g ++ mark.toList, r, _, r, rfl, rfl,
      ⟨g, mark.toList, _, mark.toList, rfl, rfl, ⟨[], g, [], g, rfl, rfl, ⟨rfl, rfl, opens⟩, blank,
        by simp, by simp [spelled, starts], rfl⟩, rfl, rfl⟩, inline, by simp, by simpa using closed,
      rfl⟩, ?_⟩
    rcases ends with rfl | ⟨rfl, rfl⟩
    · exact .inl ⟨rfl, rfl⟩
    · exact .inr ⟨rfl, rfl, rfl⟩

theorem reads_trailingComment :
    trailingComment.Reads before u after v ↔
      ∃ g r, u = g ++ '/' :: '/' :: r ∧ v = [] ∧ Within isInlineBlank g ∧ g ≠ [] ∧
        Within isInline r ∧ Stops isInline after := by
  simp only [trailingComment, someGap, literal, restOfLine, reads_drop, reads_append, Reads]
  constructor
  · rintro ⟨rfl, _, _, _, _, r, rfl, rfl, ⟨_, _, _, _, rfl, rfl, ⟨blank, nonempty, -, rfl⟩, rfl, rfl⟩,
      inline, -, stops, rfl⟩
    exact ⟨_, r, by simp, rfl, blank, nonempty trivial, inline, stops⟩
  · rintro ⟨g, r, rfl, rfl, blank, nonempty, inline, stops⟩
    refine ⟨rfl, _, g ++ ['/', '/'], r, _, r, by simp, rfl, ⟨g, ['/', '/'], g, ['/', '/'], rfl, rfl,
      ⟨blank, fun _ => nonempty, ?_, rfl⟩, rfl, rfl⟩, inline, by simp, stops, rfl⟩
    exact (stops_cons _ _ _).2 (by decide)

theorem reads_leadingBlanks :
    leadingBlanks.Reads before u after v ↔
      v = [] ∧ OpensLine before ∧ Within isBlank u ∧ u ≠ [] ∧ Stops isBlank after := by
  simp only [leadingBlanks, someBlanks, reads_drop, reads_append, Reads]
  constructor
  · rintro ⟨rfl, _, _, _, _, _, rfl, rfl, ⟨rfl, rfl, opens⟩, blank, nonempty, stops, rfl⟩
    exact ⟨rfl, opens, by simpa using blank, by simpa using nonempty trivial, stops⟩
  · rintro ⟨rfl, opens, blank, nonempty, stops⟩
    exact ⟨rfl, u, [], u, [], u, rfl, rfl, ⟨rfl, rfl, opens⟩, blank, fun _ => nonempty, stops, rfl⟩

/-- The readings write nothing that could stand in a line where the last character satisfies `Q`. -/
abbrev QuietIn (p : Pattern) (Q : Option Char → Prop) : Prop := Quiet p Q isInline

theorem copied_after {p : Pattern} {Q : Option Char → Prop} (quiet : QuietIn p Q)
    (onward : ∀ c, isInline c = true → Q (some c)) {c : Char} {w q : List Char} (nonempty : w ≠ [])
    (inline : Within isInline w) (split : c :: out = w ++ q) (swept : Swept p (some c) s out) :
    ∃ z, c :: s = w ++ z := by
  obtain ⟨d, w, rfl⟩ := List.exists_cons_of_ne_nil nonempty
  obtain ⟨rfl, rfl⟩ := List.cons.inj split
  rw [within_cons] at inline
  obtain ⟨z, rfl, -⟩ := swept.copied quiet onward (onward c inline.1) inline.2
  exact ⟨z, rfl⟩

theorem reads_commentLine :
    (wholeLine "//").Reads before u after v ↔
      ∃ g r e, u = g ++ '/' :: '/' :: r ++ e ∧ v = [] ∧ OpensLine before ∧
        Within isInlineBlank g ∧ Within isInline r ∧ (e = ['\n'] ∨ e = [] ∧ after = []) := by
  simpa using reads_wholeLine "//" ((stops_cons _ _ _).2 (by decide)) (by decide)

theorem commentLine_quiet : QuietIn (wholeLine "//") fun before => ¬ OpensLine before := by
  intro before u after v out inside reads
  obtain ⟨g, r, e, -, -, opens, -⟩ := reads_commentLine.1 reads
  exact absurd opens inside

theorem not_commentAhead_nil : ¬ CommentAhead [] := by
  rintro ⟨g, z, -, split⟩
  simp at split

theorem CommentAhead.copied {p : Pattern} {Q : Option Char → Prop} (quiet : QuietIn p Q)
    (onward : ∀ c, isInline c = true → Q (some c)) {c : Char} (ahead : CommentAhead (c :: out))
    (swept : Swept p (some c) s out) : CommentAhead (c :: s) := by
  obtain ⟨g, q, blank, split⟩ := ahead
  have inline : Within isInline (g ++ ['/', '/']) := by
    rw [within_append]
    exact ⟨blank.mono fun _ => isInline_of_isInlineBlank, by decide⟩
  obtain ⟨z, there⟩ := copied_after quiet onward (q := q) (by simp) inline (by simpa using split) swept
  exact ⟨g, z, blank, by simpa using there⟩

theorem commentLines_noCommentLine (swept : Swept (wholeLine "//") before s out)
    (start : OpensLine o → OpensLine before) : NoCommentLine o out := by
  induction swept generalizing o with
  | done => exact throughout_nil.2 fun _ => not_commentAhead_nil
  | @step before u after v out reads nonempty later ih =>
      obtain ⟨g, r, e, rfl, rfl, -, -, -, rfl | ⟨rfl, rfl⟩⟩ := reads_commentLine.1 reads
      · exact ih (by simp)
      · rw [later.eq_nil]
        exact throughout_nil.2 fun _ => not_commentAhead_nil
  | @skip before c s out fails later ih =>
      refine throughout_cons.2 ⟨fun opens ahead => ?_, ih id⟩
      -- Readings start at line starts only, so the comment is in the text as it was.
      obtain ⟨g, z, blank, there⟩ := ahead.copied commentLine_quiet (by simp [isInline]) later
      obtain ⟨r, rest, rfl, inline, stops⟩ := exists_run isInline z
      cases rest with
      | nil =>
          exact fails (g ++ ['/', '/'] ++ r) [] [] (by simpa using there) (reads_commentLine.2
            ⟨g, r, [], by simp, rfl, start opens, blank, inline, .inr ⟨rfl, rfl⟩⟩)
      | cons e rest =>
          have ends : e = '\n' := by simpa [isInline] using stops
          subst ends
          exact fails (g ++ ['/', '/'] ++ r ++ ['\n']) rest [] (by simpa using there)
            (reads_commentLine.2 ⟨g, r, ['\n'], by simp, rfl, start opens, blank, inline, .inl rfl⟩)

theorem trailingComments_stops (swept : Swept trailingComment before s out)
    (stops : Stops isInline s) : Stops isInline out := by
  cases swept with
  | done => exact stops_nil _
  | step reads nonempty later =>
      obtain ⟨g, r, rfl, rfl, blank, filled, -, -⟩ := reads_trailingComment.1 reads
      obtain ⟨c, g, rfl⟩ := List.exists_cons_of_ne_nil filled
      rw [within_cons] at blank
      simp [isInline_of_isInlineBlank blank.1] at stops
  | skip fails later => simpa using stops

theorem trailingComment_quiet : QuietIn trailingComment fun _ => True := by
  intro before u after v out _ reads later
  obtain ⟨g, r, rfl, rfl, -, -, -, stops⟩ := reads_trailingComment.1 reads
  exact trailingComments_stops later stops

theorem not_commentAhead (stops : Stops isInline s) : ¬ CommentAhead s := by
  rintro ⟨g, z, blank, rfl⟩
  cases g with
  | nil => simp [isInline] at stops
  | cons c g =>
      rw [within_cons] at blank
      simp [isInline_of_isInlineBlank blank.1] at stops

theorem trailingComments_noCommentLine (swept : Swept trailingComment before s out)
    (every : NoCommentLine before s) (start : o = before ∨ Stops isInline s) :
    NoCommentLine o out := by
  induction swept generalizing o with
  | done => exact throughout_nil.2 fun _ => not_commentAhead_nil
  | @step before u after v out reads nonempty later ih =>
      obtain ⟨g, r, rfl, rfl, -, -, -, stops⟩ := reads_trailingComment.1 reads
      exact ih every.suffix (.inr stops)
  | @skip before c s out fails later ih =>
      obtain ⟨here, every⟩ := throughout_cons.1 every
      refine throughout_cons.2 ⟨fun opens ahead => ?_, ih every (.inl rfl)⟩
      have there := ahead.copied trailingComment_quiet (fun _ _ => trivial) later
      rcases start with rfl | stops
      · exact here opens there
      · exact not_commentAhead stops there

theorem leadingBlanks_quiet : QuietIn leadingBlanks fun before => ¬ OpensLine before := by
  intro before u after v out inside reads
  exact absurd (reads_leadingBlanks.1 reads).2.1 inside

theorem leadingBlanks_flushLeft (swept : Swept leadingBlanks before s out)
    (start : OpensLine o → OpensLine before ∨ Stops isBlank s) : FlushLeft o out := by
  induction swept generalizing o with
  | done => simp
  | @step before u after v out reads nonempty later ih =>
      obtain ⟨rfl, -, -, -, stops⟩ := reads_leadingBlanks.1 reads
      exact ih fun _ => .inr stops
  | @skip before c s out fails later ih =>
      refine throughout_cons.2 ⟨fun opens => ?_, ih .inl⟩
      rw [stops_cons]
      rcases start opens with opens | stops
      · by_contra blank
        obtain ⟨u, after, taken, within, stops⟩ := exists_run isBlank (c :: s)
        have nonempty : u ≠ [] := by
          rintro rfl
          rw [List.nil_append] at taken
          simp [← taken, blank] at stops
        exact fails u after [] taken (reads_leadingBlanks.2 ⟨rfl, opens, within, nonempty, stops⟩)
      · simpa using stops

theorem last_line (opens : OpensLine before) (blank : Within isBlank u) :
    ∃ p g, u = p ++ g ∧ Within isInlineBlank g ∧ OpensLine (lastOf before p) := by
  induction u using List.reverseRecOn with
  | nil => exact ⟨[], [], rfl, by simp, opens⟩
  | append_singleton u c ih =>
      rw [within_append, within_cons] at blank
      by_cases newline : c = '\n'
      · exact ⟨u ++ [c], [], by simp, by simp, by simp [newline]⟩
      · obtain ⟨p, g, rfl, inline, opens⟩ := ih blank.1
        exact ⟨p, g ++ [c], by simp, by simp [inline, isInlineBlank, blank.2.1, newline], opens⟩

theorem leadingBlanks_noCommentStart (swept : Swept leadingBlanks before s out)
    (every : NoCommentLine before s) (start : OpensLine o → OpensLine before ∨ ¬ CommentHere s) :
    NoCommentStart o out := by
  induction swept generalizing o with
  | done =>
      refine throughout_nil.2 ?_
      rintro - ⟨z, split⟩
      simp at split
  | @step before u after v out reads nonempty later ih =>
      obtain ⟨rfl, opens, blank, -, stops⟩ := reads_leadingBlanks.1 reads
      refine ih every.suffix fun _ => .inr ?_
      rintro ⟨z, rfl⟩
      obtain ⟨p, g, rfl, inline, opens⟩ := last_line opens blank
      rw [List.append_assoc] at every
      exact every p _ rfl opens ⟨g, z, inline, rfl⟩
  | @skip before c s out fails later ih =>
      obtain ⟨here, every⟩ := throughout_cons.1 every
      refine throughout_cons.2 ⟨?_, ih every .inl⟩
      rintro opens ⟨q, split⟩
      obtain ⟨z, there⟩ := copied_after leadingBlanks_quiet (by simp [isInline]) (w := ['/', '/'])
        (q := q) (by simp) (by decide) (by simpa using split) later
      rcases start opens with opens | other
      · exact here opens ⟨[], z, by simp, by simpa using there⟩
      · exact other ⟨z, there⟩

theorem wholeLine_advances {mark : String} (starts : Stops isInlineBlank mark.toList)
    (filled : mark.toList ≠ []) : (wholeLine mark).Advances := by
  intro before u after v reads
  obtain ⟨g, r, e, rfl, -⟩ := (reads_wholeLine mark starts filled).1 reads
  simp [filled]

theorem trailingComment_advances : trailingComment.Advances := advances_of_least (by decide)

theorem leadingBlanks_advances : leadingBlanks.Advances := advances_of_least (by decide)

theorem productionRemovals_flushLeft (s : List Char) :
    FlushLeft none (RuleSet.applyAll productionRemovals s) :=
  leadingBlanks_flushLeft (rewrite_swept leadingBlanks_advances _) .inl

theorem productionRemovals_noCommentStart (s : List Char) :
    NoCommentStart none (RuleSet.applyAll productionRemovals s) := by
  have commentLines := commentLines_noCommentLine (o := none)
    (rewrite_swept (wholeLine_advances ((stops_cons _ _ _).2 (by decide)) (by decide))
      ((wholeLine "///").rewrite s)) id
  have trailing := trailingComments_noCommentLine
    (rewrite_swept trailingComment_advances _) commentLines (.inl rfl)
  exact leadingBlanks_noCommentStart (rewrite_swept leadingBlanks_advances _) trailing .inl

end SourceBundle.Swift
