import SourceBundle.Proofs.Sweep
import SourceBundle.Text.Blank
import Mathlib.Data.List.SplitBy

/-!
Rules about whole lines. A pattern that reads a line with the newline that ends it, or the last line of a text,
and writes nothing is a filter of lines: the other lines stay as they are, in their order.
-/

namespace SourceBundle

namespace Text

def terminatedLines (s : List Char) : List (List Char) := s.splitBy fun c _ => isInline c

def keepLines (keep : List Char → Bool) (s : List Char) : List Char :=
  ((terminatedLines s).filter fun line => keep (line.takeWhile isInline)).flatten

variable {keep keep' : List Char → Bool} {w s : List Char}

theorem newline_not_inline : isInline '\n' = false := by decide

theorem line_cases {motive : List Char → Prop} (empty : motive [])
    (last : ∀ w, Within isInline w → w ≠ [] → motive w)
    (line : ∀ w s, Within isInline w → motive s → motive (w ++ '\n' :: s)) (s : List Char) : motive s := by
  -- On the length, since a step leaves out a whole line.
  induction bound : s.length using Nat.strong_induction_on generalizing s with
  | _ n ih =>
      obtain ⟨w, rest, rfl, inline, stops⟩ := exists_run isInline s
      cases rest with
      | nil =>
          rw [List.append_nil]
          by_cases blank : w = []
          · rw [blank]
            exact empty
          · exact last w inline blank
      | cons c rest =>
          have newline : c = '\n' := by simpa [isInline] using stops
          rw [newline]
          apply line w rest inline
          apply ih rest.length _ rest rfl
          simp only [List.length_append, List.length_cons] at bound
          omega

theorem isChain_inline (inline : Within isInline w) (c : Char) :
    (w ++ [c]).IsChain fun d _ => isInline d = true := by
  induction w with
  | nil => simp
  | cons d w ih =>
      rw [within_cons] at inline
      rw [List.cons_append, List.isChain_cons]
      exact ⟨fun _ _ => inline.1, ih inline.2⟩

theorem terminatedLines_line (inline : Within isInline w) (s : List Char) :
    terminatedLines (w ++ '\n' :: s) = (w ++ ['\n']) :: terminatedLines s := by
  have split : w ++ '\n' :: s = (w ++ ['\n']) ++ s := by simp
  rw [terminatedLines, split, List.splitBy_append, List.splitBy_of_isChain (by simp) (isChain_inline inline '\n')]
  · rfl
  · intro c last d _
    have newline : c = '\n' := by simpa using last.symm
    rw [newline]
    exact newline_not_inline

theorem terminatedLines_last (inline : Within isInline w) (filled : w ≠ []) : terminatedLines w = [w] := by
  obtain ⟨v, c, rfl⟩ := (List.eq_nil_or_concat w).resolve_left filled
  rw [List.concat_eq_append] at inline ⊢
  rw [within_append] at inline
  exact List.splitBy_of_isChain (by simp) (isChain_inline inline.1 c)

theorem takeWhile_line (inline : Within isInline w) (s : List Char) :
    (w ++ '\n' :: s).takeWhile isInline = w := by
  rw [List.takeWhile_append_of_pos inline, List.takeWhile_cons_of_neg (by decide), List.append_nil]

@[simp] theorem keepLines_nil : keepLines keep [] = [] := rfl

theorem keepLines_line (inline : Within isInline w) (s : List Char) :
    keepLines keep (w ++ '\n' :: s) = (if keep w then w ++ ['\n'] else []) ++ keepLines keep s := by
  have body : (w ++ ['\n']).takeWhile isInline = w := takeWhile_line inline []
  rw [keepLines, terminatedLines_line inline, List.filter_cons, body]
  split <;> simp [keepLines]

theorem keepLines_last (inline : Within isInline w) (filled : w ≠ []) :
    keepLines keep w = if keep w then w else [] := by
  have body : w.takeWhile isInline = w := List.takeWhile_eq_self_iff.2 inline
  rw [keepLines, terminatedLines_last inline filled, List.filter_singleton, body]
  cases keep w <;> simp

theorem keepLines_keepLines (s : List Char) :
    keepLines keep (keepLines keep' s) = keepLines (fun w => keep w && keep' w) s := by
  induction s using line_cases with
  | empty => rfl
  | last w inline filled =>
      rw [keepLines_last inline filled, keepLines_last inline filled]
      cases keep' w with
      | false => simp
      | true => simp [keepLines_last inline filled]
  | line w s inline ih =>
      rw [keepLines_line inline, keepLines_line inline, ← ih]
      cases keep' w with
      | false => simp
      | true => simp [keepLines_line inline]

theorem trimStart_blank {g z : List Char} (blank : Within isBlank g) (stops : Stops isBlank z) :
    trimStart (g ++ z) = z := by
  rw [trimStart, List.dropWhile_append_of_pos blank]
  cases z with
  | nil => rfl
  | cons c z => rw [List.dropWhile_cons_of_neg (by simpa using stops)]

theorem exists_trimStart (s : List Char) : ∃ g, s = g ++ trimStart s ∧ Within isBlank g := by
  refine ⟨s.takeWhile isBlank, ?_, fun c => List.mem_takeWhile_imp⟩
  rw [trimStart, List.takeWhile_append_dropWhile]

theorem exists_trimEnd (s : List Char) : ∃ h, s = trimEnd s ++ h ∧ Within isBlank h := by
  obtain ⟨g, split, blank⟩ := exists_trimStart s.reverse
  refine ⟨g.reverse, ?_, ?_⟩
  · calc s
        = (g ++ trimStart s.reverse).reverse := by rw [← split, List.reverse_reverse]
      _ = trimEnd s ++ g.reverse := List.reverse_append
  · intro c member
    exact blank c (List.mem_reverse.1 member)

theorem not_opensLine {o : Option Char} (nonempty : w ≠ []) (inline : Within isInline w) :
    ¬ OpensLine (lastOf o w) := by
  obtain ⟨w, c, rfl⟩ := (List.eq_nil_or_concat w).resolve_left nonempty
  simpa [isInline] using inline c (by simp)

end Text

namespace Pattern

open Text

/-- The pattern reads the lines of a kind, each from its start to its newline or to the end of the text, and writes
nothing. -/
def TakesLines (p : Pattern) (take : List Char → Bool) : Prop :=
  ∀ before u after v, p.Reads before u after v ↔ v = [] ∧ OpensLine before ∧
    ∃ w e, u = w ++ e ∧ Within isInline w ∧ take w = true ∧ (e = ['\n'] ∨ e = [] ∧ after = [])

variable {p : Pattern} {take : List Char → Bool} {before : Option Char} {w s out : List Char}

theorem TakesLines.advances (takes : p.TakesLines take) (filled : take [] = false) : p.Advances := by
  intro before u after v reads
  obtain ⟨-, -, w, e, rfl, -, taken, -⟩ := (takes _ _ _ _).1 reads
  intro empty
  rw [(List.append_eq_nil_iff.1 empty).1, filled] at taken
  exact Bool.false_ne_true taken

theorem TakesLines.line (takes : p.TakesLines take) (inline : Within isInline w) {u after v : List Char}
    (split : w ++ '\n' :: s = u ++ after) (reads : p.Reads before u after v) :
    take w = true ∧ u = w ++ ['\n'] ∧ v = [] := by
  obtain ⟨written, -, w', e, rfl, inline', taken, ends⟩ := (takes _ _ _ _).1 reads
  have closed : Stops isInline ('\n' :: s) := (stops_cons _ _ _).2 newline_not_inline
  rcases ends with rfl | ⟨rfl, rfl⟩
  · have closed' : Stops isInline ('\n' :: after) := (stops_cons _ _ _).2 newline_not_inline
    obtain ⟨same, -⟩ := run_unique (split.trans (by simp)) inline inline' closed closed'
    exact ⟨same ▸ taken, by rw [same], written⟩
  · -- At the end of the text the newline behind `w` would be inside the line that was read.
    have inside : '\n' ∈ w' := by
      have member : '\n' ∈ w ++ '\n' :: s := by simp
      rw [split] at member
      simpa using member
    exact absurd (inline' _ inside) (by decide)

theorem Swept.copies_inline (starts : ∀ before u after v, p.Reads before u after v → OpensLine before)
    (inline : Within isInline w) (fails : w ≠ [] → Fails p before (w ++ s)) (swept : Swept p before (w ++ s) out) :
    ∃ rest, out = w ++ rest ∧ Swept p (lastOf before w) s rest := by
  induction w generalizing before out with
  | nil => exact ⟨out, rfl, swept⟩
  | cons c w ih =>
      obtain ⟨rest, rfl, later⟩ := swept.copies (fails (by simp))
      rw [within_cons] at inline
      have inside : w ≠ [] → Fails p (some c) (w ++ s) := by
        intro _ u after v _ reads
        have opens := starts _ _ _ _ reads
        rw [opensLine_some] at opens
        rw [opens] at inline
        exact absurd inline.1 (by decide)
      obtain ⟨rest, rfl, last⟩ := ih inline.2 inside later
      exact ⟨rest, rfl, last⟩

theorem TakesLines.starts (takes : p.TakesLines take) :
    ∀ before u after v, p.Reads before u after v → OpensLine before :=
  fun _ _ _ _ reads => ((takes _ _ _ _).1 reads).2.1

theorem TakesLines.swept_line (takes : p.TakesLines take) (filled : take [] = false) (opens : OpensLine before)
    (inline : Within isInline w) (swept : Swept p before (w ++ '\n' :: s) out) :
    ∃ rest, out = (if take w then [] else w ++ ['\n']) ++ rest ∧ Swept p (some '\n') s rest := by
  have starts : ∃ c t, w ++ '\n' :: s = c :: t := List.exists_cons_of_ne_nil (by simp)
  obtain ⟨c, t, text⟩ := starts
  by_cases taken : take w = true
  · rw [text] at swept
    rcases swept.cases_cons with ⟨u, after, v, rest, split, rfl, reads, -, later⟩ | ⟨fails, -⟩
    · obtain ⟨-, rfl, rfl⟩ := takes.line inline (text.trans split) reads
      have rest' : s = after := by simpa using text.trans split
      refine ⟨rest, by simp [taken], ?_⟩
      rw [rest']
      simpa using later
    · have reads : p.Reads before (w ++ ['\n']) s [] :=
        (takes _ _ _ _).2 ⟨rfl, opens, w, ['\n'], rfl, inline, taken, .inl rfl⟩
      exact absurd reads (fails _ _ _ (by simp [← text]))
  · have fails : Fails p before (w ++ '\n' :: s) := by
      intro u after v split reads
      exact taken (takes.line inline split reads).1
    obtain ⟨rest, rfl, later⟩ := Swept.copies_inline takes.starts inline (fun _ => fails) swept
    have ends : Fails p (lastOf before w) ('\n' :: s) := by
      intro u after v split reads
      have empty : take [] = true := (takes.line (w := []) (within_nil _) split reads).1
      rw [filled] at empty
      exact absurd empty Bool.false_ne_true
    obtain ⟨rest, rfl, last⟩ := later.copies ends
    exact ⟨rest, by simp [taken], last⟩

theorem TakesLines.swept_last (takes : p.TakesLines take) (opens : OpensLine before)
    (inline : Within isInline w) (swept : Swept p before w out) : out = if take w then [] else w := by
  cases w with
  | nil => simp [swept.eq_nil]
  | cons c w =>
      have whole : ∀ u after v, c :: w = u ++ after → p.Reads before u after v →
          take (c :: w) = true ∧ v = [] ∧ after = [] := by
        intro u after v split reads
        obtain ⟨written, -, w', e, rfl, -, taken, ends⟩ := (takes _ _ _ _).1 reads
        rcases ends with rfl | ⟨rfl, rfl⟩
        · have newline : '\n' ∈ c :: w := by simp [split]
          exact absurd (inline '\n' newline) (by decide)
        · rw [List.append_nil, List.append_nil] at split
          exact ⟨split ▸ taken, written, rfl⟩
      by_cases taken : take (c :: w) = true
      · rcases swept.cases_cons with ⟨u, after, v, rest, split, rfl, reads, -, later⟩ | ⟨fails, -⟩
        · obtain ⟨-, rfl, rfl⟩ := whole u after v split reads
          simp [taken, later.eq_nil]
        · have reads : p.Reads before (c :: w) [] [] :=
            (takes _ _ _ _).2 ⟨rfl, opens, c :: w, [], by simp, inline, taken, .inr ⟨rfl, rfl⟩⟩
          exact absurd reads (fails _ _ _ (by simp))
      · have fails : Fails p before ((c :: w) ++ []) := by
          intro u after v split reads
          exact taken (whole u after v (by simpa using split) reads).1
        obtain ⟨rest, rfl, later⟩ := Swept.copies_inline takes.starts inline (fun _ => fails) (by simpa using swept)
        simp [taken, later.eq_nil]

/-- A rule about whole lines keeps the lines that its pattern does not take. -/
theorem rewrite_takesLines (takes : p.TakesLines take) (filled : take [] = false) (s : List Char) :
    p.rewrite s = keepLines (fun w => !take w) s := by
  have every : ∀ before out, OpensLine before → Swept p before s out → out = keepLines (fun w => !take w) s := by
    induction s using line_cases with
    | empty =>
        intro before out _ swept
        exact swept.eq_nil
    | last w inline nonempty =>
        intro before out opens swept
        rw [takes.swept_last opens inline swept, keepLines_last inline nonempty]
        cases take w <;> rfl
    | line w s inline ih =>
        intro before out opens swept
        obtain ⟨rest, rfl, later⟩ := takes.swept_line filled opens inline swept
        rw [keepLines_line inline, ih _ rest (by simp) later]
        cases take w <;> rfl
  exact every none _ (by simp) (rewrite_swept (takes.advances filled) s)

end Pattern

end SourceBundle
