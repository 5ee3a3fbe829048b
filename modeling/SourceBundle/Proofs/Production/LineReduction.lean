import SourceBundle.Proofs.Production.Composition

/-!
The removals of the production profile, line by line. Two of them filter lines, one cuts a line before its trailing
comment and the last takes blanks over line breaks; together they make of each line a line or nothing, whatever the
other lines are.
-/

namespace SourceBundle

open Text

namespace Text

variable {f : List Char → List Char} {g s w : List Char}

def mapLines (f : List Char → List Char) (s : List Char) : List Char := (terminatedLines s).flatMap f

theorem mapLines_line (inline : Within isInline w) (s : List Char) :
    mapLines f (w ++ '\n' :: s) = f (w ++ ['\n']) ++ mapLines f s := by
  rw [mapLines, terminatedLines_line inline, List.flatMap_cons, ← mapLines]

theorem mapLines_last (inline : Within isInline w) (nothing : f [] = []) : mapLines f w = f w := by
  by_cases empty : w = []
  · subst empty
    exact nothing.symm
  · rw [mapLines, terminatedLines_last inline empty, List.flatMap_singleton]

theorem trimStart_cons_blank {c : Char} (blank : isBlank c = true) (s : List Char) :
    trimStart (c :: s) = trimStart s := List.dropWhile_cons_of_pos blank

theorem mapLines_trimStart_blank (blank : Within isBlank g) (s : List Char) :
    mapLines trimStart (g ++ s) = mapLines trimStart s := by
  induction g with
  | nil => rfl
  | cons c g ih =>
      rw [within_cons] at blank
      rw [← ih blank.2, List.cons_append]
      generalize g ++ s = z
      by_cases newline : c = '\n'
      · subst newline
        exact mapLines_line (w := []) (within_nil _) z
      · have inline : isInline c = true := by simpa [isInline] using newline
        induction z using line_cases with
        | empty => exact mapLines_last (by simp [inline]) rfl |>.trans (trimStart_cons_blank blank.1 [])
        | last w inline' _ =>
            rw [mapLines_last (by simp [inline, inline']) rfl, mapLines_last inline' rfl,
              trimStart_cons_blank blank.1]
        | line w z inline' _ =>
            rw [← List.cons_append, mapLines_line (by simp [inline, inline']), mapLines_line inline', List.cons_append,
              trimStart_cons_blank blank.1]

end Text

namespace Swift

open Pattern

variable {before : Option Char} {after g line out s w x y z : List Char}

def OpensComment (s : List Char) : Prop :=
  ∃ g z, s = g ++ "//".toList ++ z ∧ Within isInlineBlank g ∧ g ≠ []

/-- The text up to the first run of blanks within the line that stands right before `//`. -/
def beforeComment : List Char → List Char
  | [] => []
  | c :: s =>
      if isInlineBlank c && "//".toList.isPrefixOf (s.dropWhile isInlineBlank) then [] else c :: beforeComment s

theorem opensComment_cons {c : Char} :
    OpensComment (c :: s) ↔ isInlineBlank c = true ∧ "//".toList <+: s.dropWhile isInlineBlank := by
  constructor
  · rintro ⟨g, z, split, blank, filled⟩
    obtain ⟨d, g, rfl⟩ := List.exists_cons_of_ne_nil filled
    obtain ⟨rfl, rfl⟩ := List.cons.inj split
    rw [within_cons] at blank
    refine ⟨blank.1, z, ?_⟩
    have rest : (g ++ "//".toList ++ z).dropWhile isInlineBlank = "//".toList ++ z := by
      rw [List.append_assoc, List.dropWhile_append_of_pos blank.2]
      rfl
    exact rest.symm
  · rintro ⟨blank, z, rest⟩
    refine ⟨c :: s.takeWhile isInlineBlank, z, ?_, ?_, by simp⟩
    · rw [List.append_assoc, rest, List.cons_append, List.takeWhile_append_dropWhile]
    · rw [within_cons]
      exact ⟨blank, fun _ => List.mem_takeWhile_imp⟩

theorem beforeComment_opens {c : Char} (opens : OpensComment (c :: s)) : beforeComment (c :: s) = [] := by
  obtain ⟨blank, rest⟩ := opensComment_cons.1 opens
  rw [beforeComment, blank, List.isPrefixOf_iff_prefix.2 rest]
  rfl

theorem beforeComment_copies {c : Char} (fails : ¬ OpensComment (c :: s)) :
    beforeComment (c :: s) = c :: beforeComment s := by
  rw [beforeComment, if_neg]
  rwa [Bool.and_eq_true, List.isPrefixOf_iff_prefix, ← opensComment_cons]

theorem beforeComment_first (line : List Char) : ∃ rest, line = beforeComment line ++ rest ∧
    (rest = [] ∨ OpensComment rest) ∧ ∀ x y, beforeComment line = x ++ y → y ≠ [] → ¬ OpensComment (y ++ rest) := by
  induction line with
  | nil => exact ⟨[], rfl, .inl rfl, by simp [beforeComment]⟩
  | cons c line ih =>
      by_cases opens : OpensComment (c :: line)
      · refine ⟨c :: line, ?_, .inr opens, ?_⟩
        · rw [beforeComment_opens opens, List.nil_append]
        · intro x y split filled
          rw [beforeComment_opens opens] at split
          exact absurd (List.append_eq_nil_iff.1 split.symm).2 filled
      · obtain ⟨rest, split, ends, first⟩ := ih
        rw [beforeComment_copies opens]
        refine ⟨rest, by rw [List.cons_append, ← split], ends, fun x y front filled => ?_⟩
        cases x with
        | nil =>
            rw [List.nil_append] at front
            rwa [← front, List.cons_append, ← split]
        | cons d x => exact first x y (List.cons.inj front).2 filled

theorem beforeComment_inline (inline : Within isInline line) : Within isInline (beforeComment line) := by
  obtain ⟨rest, split, -⟩ := beforeComment_first line
  rw [split, within_append] at inline
  exact inline.1

theorem beforeComment_filled (filled : trimStart line ≠ []) (code : opensWith "//" line = false) :
    trimStart (beforeComment line) ≠ [] := by
  intro blank
  obtain ⟨rest, split, rfl | ⟨g, z, rfl, gap, -⟩, -⟩ := beforeComment_first line
  · rw [List.append_nil] at split
    rw [← split] at blank
    exact filled blank
  · obtain ⟨h, front, within⟩ := exists_trimStart (beforeComment line)
    rw [blank, List.append_nil] at front
    have text : trimStart line = "//".toList ++ z := by
      rw [split, front, List.append_assoc, ← List.append_assoc]
      refine trimStart_blank ?_ ((stops_cons _ _ _).2 (by decide))
      rw [within_append]
      exact ⟨within, gap.mono fun _ => isBlank_of_isInlineBlank⟩
    rw [opensWith, text] at code
    exact absurd (List.isPrefixOf_iff_prefix.2 (List.prefix_append _ z)) (by rw [code]; exact Bool.false_ne_true)

/-- What stands on a line, and how it ends, once its trailing comment is gone. -/
def uncommented (line : List Char) : List Char :=
  beforeComment (line.takeWhile isInline) ++ line.dropWhile isInline

theorem uncommented_line (inline : Within isInline w) : uncommented (w ++ ['\n']) = beforeComment w ++ ['\n'] := by
  rw [uncommented, takeWhile_line inline, List.dropWhile_append_of_pos inline]
  rfl

theorem uncommented_last (inline : Within isInline w) : uncommented w = beforeComment w := by
  rw [uncommented, List.takeWhile_eq_self_iff.2 inline, List.dropWhile_eq_nil_iff.2 inline, List.append_nil]

theorem trailingComment_line (inline : Within isInline w) (stops : Stops isInline s)
    (swept : Swept trailingComment before (w ++ s) out) :
    ∃ last rest, out = beforeComment w ++ rest ∧ Swept trailingComment last s rest := by
  induction w generalizing before out with
  | nil => exact ⟨before, out, rfl, swept⟩
  | cons c w ih =>
      rw [within_cons] at inline
      rcases swept.cases_cons with ⟨u, after, v, rest, split, rfl, reads, -, later⟩ | ⟨fails, rest, rfl, later⟩
      · obtain ⟨g, r, rfl, rfl, blank, filled, inline', stops'⟩ := reads_trailingComment.1 reads
        have comment : Within isInline (g ++ '/' :: '/' :: r) := by
          rw [within_append, within_cons, within_cons]
          exact ⟨blank.mono fun _ => isInline_of_isInlineBlank, by decide, by decide, inline'⟩
        obtain ⟨whole, rfl⟩ := run_unique split ((within_cons _ _ _).2 inline) comment stops stops'
        have opens : OpensComment (c :: w) := ⟨g, r, by simpa using whole, blank, filled⟩
        exact ⟨_, rest, by rw [beforeComment_opens opens], later⟩
      · have code : ¬ OpensComment (c :: w) := by
          rintro ⟨g, r, split, blank, filled⟩
          have inline' : Within isInline r := by
            have whole : Within isInline (c :: w) := (within_cons _ _ _).2 inline
            rw [split, within_append] at whole
            exact whole.2
          refine fails (c :: w) s [] rfl (reads_trailingComment.2 ⟨g, r, ?_, rfl, blank, filled, inline', stops⟩)
          simpa using split
        obtain ⟨last, rest, rfl, onward⟩ := ih inline.2 later
        exact ⟨last, rest, by rw [beforeComment_copies code, List.cons_append], onward⟩

theorem trailingComment_swept (swept : Swept trailingComment before s out) : out = mapLines uncommented s := by
  induction s using line_cases generalizing before out with
  | empty => exact swept.eq_nil
  | last w inline _ =>
      rw [← List.append_nil w] at swept
      obtain ⟨last, rest, rfl, later⟩ := trailingComment_line inline (stops_nil _) swept
      rw [later.eq_nil, List.append_nil, mapLines_last inline rfl, uncommented_last inline]
  | line w s inline ih =>
      obtain ⟨last, rest, rfl, later⟩ :=
        trailingComment_line inline ((stops_cons _ _ _).2 newline_not_inline) swept
      have ends : Fails trailingComment last ('\n' :: s) := by
        intro u after v split reads
        obtain ⟨g, r, rfl, -, blank, filled, -⟩ := reads_trailingComment.1 reads
        have first := blank.head filled (by rw [← List.append_assoc, ← split])
        exact absurd first (by decide)
      obtain ⟨rest, rfl, onward⟩ := later.copies ends
      rw [ih onward, mapLines_line inline, uncommented_line inline, List.append_assoc]
      rfl

theorem trailingComment_rewrite (s : List Char) : trailingComment.rewrite s = mapLines uncommented s :=
  trailingComment_swept (rewrite_swept trailingComment_advances s)

theorem leadingBlanks_starts : ∀ before u after v, leadingBlanks.Reads before u after v → OpensLine before :=
  fun _ _ _ _ reads => (reads_leadingBlanks.1 reads).2.1

theorem leadingBlanks_line (filled : w ≠ []) (inline : Within isInline w) (stops : Stops isBlank w)
    (swept : Swept leadingBlanks before (w ++ s) out) :
    ∃ rest, out = w ++ rest ∧ Swept leadingBlanks (lastOf before w) s rest := by
  refine Swept.copies_inline leadingBlanks_starts inline (fun _ => ?_) swept
  intro u after v split reads
  obtain ⟨-, -, blank, taken, -⟩ := reads_leadingBlanks.1 reads
  obtain ⟨c, w, rfl⟩ := List.exists_cons_of_ne_nil filled
  have first := blank.head taken (split.symm.trans List.cons_append)
  rw [stops_cons, first] at stops
  cases stops

theorem leadingBlanks_run (opens : OpensLine before) (swept : Swept leadingBlanks before s out) :
    ∃ g z, s = g ++ z ∧ Within isBlank g ∧ Stops isBlank z ∧ Swept leadingBlanks (lastOf before g) z out := by
  obtain ⟨g, z, rfl, blank, stops⟩ := exists_run isBlank s
  cases g with
  | nil => exact ⟨[], z, rfl, blank, stops, swept⟩
  | cons c g =>
      refine ⟨c :: g, z, rfl, blank, stops, ?_⟩
      rcases swept.cases_cons with ⟨u, after, v, rest, split, rfl, reads, -, later⟩ | ⟨fails, -⟩
      · obtain ⟨rfl, -, blank', -, stops'⟩ := reads_leadingBlanks.1 reads
        obtain ⟨rfl, rfl⟩ := run_unique split blank blank' stops stops'
        exact later
      · exact absurd (reads_leadingBlanks.2 ⟨rfl, opens, blank, by simp, stops⟩) (fails (c :: g) z [] rfl)

theorem leadingBlanks_text (filled : w ≠ []) (inline : Within isInline w) (stops : Stops isBlank w)
    (swept : Swept leadingBlanks before (w ++ '\n' :: s) out) :
    ∃ rest, out = w ++ '\n' :: rest ∧ Swept leadingBlanks (some '\n') s rest := by
  obtain ⟨rest, rfl, onward⟩ := leadingBlanks_line filled inline stops swept
  have unread : Fails leadingBlanks (lastOf before w) ('\n' :: s) :=
    fun _ _ _ _ reads => not_opensLine filled inline (leadingBlanks_starts _ _ _ _ reads)
  obtain ⟨rest, rfl, behind⟩ := onward.copies unread
  exact ⟨rest, rfl, behind⟩

theorem leadingBlanks_swept (opens : OpensLine before) (swept : Swept leadingBlanks before s out) :
    out = mapLines trimStart s := by
  -- On the length, since one reading may go over several lines.
  induction bound : s.length using Nat.strong_induction_on generalizing before s out with
  | _ n ih =>
      obtain ⟨g, z, rfl, blank, stops, later⟩ := leadingBlanks_run opens swept
      rw [mapLines_trimStart_blank blank]
      induction z using line_cases with
      | empty => exact later.eq_nil
      | last w inline filled =>
          obtain ⟨rest, rfl, onward⟩ := leadingBlanks_line (s := []) filled inline stops (by simpa using later)
          rw [onward.eq_nil, List.append_nil, mapLines_last inline rfl]
          exact (trimStart_blank (within_nil _) stops).symm
      | line w z inline _ =>
          have filled : w ≠ [] := by
            rintro rfl
            exact absurd ((stops_cons _ _ _).1 stops) (by decide)
          obtain ⟨c, w, rfl⟩ := List.exists_cons_of_ne_nil filled
          have solid : ∀ y, Stops isBlank (c :: y) := fun _ => (stops_cons _ _ _).2 ((stops_cons _ _ _).1 stops)
          obtain ⟨rest, rfl, behind⟩ := leadingBlanks_text filled inline (solid w) later
          have shorter : z.length < n := by
            simp only [List.length_append, List.length_cons] at bound
            omega
          have kept : trimStart (c :: w ++ ['\n']) = c :: w ++ ['\n'] :=
            trimStart_blank (within_nil _) (solid (w ++ ['\n']))
          rw [mapLines_line inline, kept, ih z.length shorter (opensLine_some _ |>.2 rfl) behind rfl, List.append_assoc]
          rfl

/-- The blanks at the start of a line are those that are trimmed, and a blank line goes with its newline. -/
theorem leadingBlanks_rewrite (s : List Char) : leadingBlanks.rewrite s = mapLines trimStart s :=
  leadingBlanks_swept opensLine_none (rewrite_swept leadingBlanks_advances s)

/-- What the removals leave of a line: nothing, if it is blank or a comment; else what stands before its trailing
comment, without the blanks it starts with, and the newline that ends it. -/
def reducedLine (line : List Char) : List Char :=
  let text := line.takeWhile isInline
  if trimStart text = [] ∨ opensWith "//" text = true then []
  else trimStart (beforeComment text) ++ line.dropWhile isInline

theorem reducedLine_line (inline : Within isInline w) : reducedLine (w ++ ['\n']) =
    if trimStart w = [] ∨ opensWith "//" w = true then [] else trimStart (beforeComment w) ++ ['\n'] := by
  rw [reducedLine, takeWhile_line inline, List.dropWhile_append_of_pos inline]
  rfl

theorem reducedLine_last (inline : Within isInline w) : reducedLine w =
    if trimStart w = [] ∨ opensWith "//" w = true then [] else trimStart (beforeComment w) := by
  rw [reducedLine, List.takeWhile_eq_self_iff.2 inline, List.dropWhile_eq_nil_iff.2 inline, List.append_nil]

theorem opensWith_of_documentation (documented : opensWith "///" w = true) : opensWith "//" w = true := by
  rw [opensWith, List.isPrefixOf_iff_prefix] at documented ⊢
  exact List.IsPrefix.trans ⟨['/'], rfl⟩ documented

theorem trimStart_beforeComment (code : opensWith "//" w = false) {e : List Char} (blank : Within isBlank e) :
    trimStart (beforeComment w ++ e) = if trimStart w = [] then [] else trimStart (beforeComment w) ++ e := by
  obtain ⟨g, front, within⟩ := exists_trimStart (beforeComment w)
  split
  · rename_i empty
    obtain ⟨h, whole, within'⟩ := exists_trimStart w
    obtain ⟨rest, split, -⟩ := beforeComment_first w
    rw [empty, List.append_nil] at whole
    rw [← whole, split, within_append] at within'
    have all : Within isBlank (beforeComment w ++ e) := (within_append _ _ _).2 ⟨within'.1, blank⟩
    simpa using trimStart_blank all (stops_nil _)
  · rename_i filled
    obtain ⟨c, z, text⟩ := List.exists_cons_of_ne_nil (beforeComment_filled filled code)
    have solid : isBlank c = false := by
      have := List.head?_dropWhile_not isBlank (beforeComment w)
      rw [← trimStart, text] at this
      simpa using this
    rw [text] at front ⊢
    rw [front, List.append_assoc]
    exact trimStart_blank within ((stops_cons _ _ _).2 solid)

/-- The removals of the production profile, in their order, come to one function for each line. -/
theorem removals_lines (s : List Char) :
    RuleSet.applyAll productionRemovals s = (terminatedLines s).flatMap reducedLine := by
  have order : ∀ z, RuleSet.applyAll productionRemovals z = leadingBlanks.rewrite (trailingComment.rewrite
      ((wholeLine "//").rewrite ((wholeLine "///").rewrite z))) := fun _ => rfl
  have comments : (fun w => !opensWith "//" w && !opensWith "///" w) = fun w => !opensWith "//" w := by
    funext w
    cases documented : opensWith "///" w with
    | false => simp
    | true => simp [opensWith_of_documentation documented]
  rw [order, wholeLine_rewrite "//" rfl (by decide), wholeLine_rewrite "///" rfl (by decide), keepLines_keepLines,
    comments, trailingComment_rewrite, leadingBlanks_rewrite, ← mapLines]
  induction s using line_cases with
  | empty => rfl
  | last w inline filled =>
      rw [keepLines_last inline filled, mapLines_last inline rfl, reducedLine_last inline]
      cases code : opensWith "//" w with
      | true => simp [mapLines, terminatedLines]
      | false =>
          have cut := trimStart_beforeComment code (within_nil isBlank)
          rw [List.append_nil, List.append_nil] at cut
          rw [Bool.not_false, if_pos rfl, mapLines_last inline rfl, uncommented_last inline,
            mapLines_last (beforeComment_inline inline) rfl]
          simpa using cut
  | line w s inline ih =>
      rw [keepLines_line inline, mapLines_line inline, reducedLine_line inline, ← ih]
      cases code : opensWith "//" w with
      | true => simp
      | false =>
          have cut := trimStart_beforeComment code (e := ['\n']) (by decide)
          rw [Bool.not_false, if_pos rfl, List.append_assoc, List.singleton_append, mapLines_line inline,
            uncommented_line inline, List.append_assoc, List.singleton_append,
            mapLines_line (beforeComment_inline inline), cut]
          simp

/-- Right behind text `//` stays; behind blanks it goes up to the end of the line, a carriage return with it. -/
example : reducedLine "\t let a = b//c \t// d\r\n".toList = "let a = b//c\n".toList := by
  decide +kernel

end Swift

end SourceBundle
