import SourceBundle.Proofs.JoinedLines
import SourceBundle.Proofs.Production.Passes

/-!
The structural pass of the embedded profile and the code of a text. A declaration has one pair of parentheses and
ends with it, so declarations neither overlap nor nest, and what the pass does to one of them depends on its own
lines only: the tokens of the code stay just where the lines of each declaration may be put together.
-/

namespace SourceBundle

open Text

namespace Text

variable {c : Char} {l m x e : List Char} {stretches : List (List Char)}

theorem joinable_concat_congr (codeless : codeInk false l = [] ↔ codeInk false m = [])
    (start : l.head? = m.head?) : Joinable (stretches ++ [l]) ↔ Joinable (stretches ++ [m]) := by
  induction stretches with
  | nil => simp [joinable_cons]
  | cons k stretches ih =>
      have first : (∀ r ∈ (stretches ++ [l]).head?, Seam isWord k r ∧ Seam (· == '/') k r) ↔
          ∀ r ∈ (stretches ++ [m]).head?, Seam isWord k r ∧ Seam (· == '/') k r := by
        cases stretches <;> simp [Seam, start]
      rw [List.cons_append, List.cons_append, joinable_cons, joinable_cons, ih, first]
      simp only [List.forall_mem_append, List.forall_mem_singleton, codeless]

theorem trim_append (solid : isBlank c = false) (x : List Char) :
    ∃ z, ∀ e, trim (x ++ c :: e) = z ++ c :: trimEnd e := by
  obtain ⟨z, start⟩ : ∃ z, trimStart (x ++ [c]) = z ++ [c] := by
    rw [trimStart, List.dropWhile_append]
    split
    · exact ⟨[], by simp [solid]⟩
    · exact ⟨_, rfl⟩
  refine ⟨z, fun e => ?_⟩
  have onward : trimStart (x ++ c :: e) = z ++ c :: e := by
    have whole : x ++ c :: e = (x ++ [c]) ++ e := by simp
    have filled : ((x ++ [c]).dropWhile isBlank).isEmpty = false := by
      rw [← trimStart, start]
      simp
    rw [trimStart] at start
    rw [whole, trimStart, List.dropWhile_append, filled, start]
    simp
  have whole : (z ++ c :: e).reverse = e.reverse ++ c :: z.reverse := by simp
  rw [trim, onward, trimEnd, whole, List.dropWhile_append]
  split
  · rename_i blank
    rw [trimEnd, List.isEmpty_iff.1 blank]
    simp [solid]
  · simp [trimEnd]

theorem codeInk_extend (solid : isSpacing c = false) (slash : c ≠ '/') (inline : Within isInline e) :
    codeInk false (x ++ c :: e) = [] ↔ codeInk false (x ++ [c]) = [] := by
  have split : x ++ c :: e = (x ++ [c]) ++ e := by simp
  have whole : code (x ++ c :: e) = code (x ++ [c]) ++ codeFrom (inComment false (x ++ [c])) e := by
    rw [split]
    apply codeFrom_append
    intro _ d last f _
    obtain rfl : c = d := by simpa using last
    simp [slash]
  have apart : codeInk false (x ++ c :: e) =
      codeInk false (x ++ [c]) ++ ink (codeFrom (inComment false (x ++ [c])) e) := by
    rw [codeInk, ← code, whole, ink_append, codeInk, ← code]
  rw [apart, List.append_eq_nil_iff]
  refine and_iff_left_of_imp fun codeless => ?_
  have commented : inComment false (x ++ [c]) = true := by
    by_contra outside
    rw [Bool.not_eq_true] at outside
    obtain ⟨z, ends⟩ := codeFrom_concat outside
    rw [codeInk, ends, ink_eq_nil] at codeless
    have spacing := codeless c (by simp)
    rw [solid] at spacing
    cases spacing
  rw [commented, codeFrom_comment inline, ink_nil]

end Text

namespace Swift

open Pattern

variable {before : Option Char} {d d' s u w v after rest out x y : List Char}

def isHeading (c : Char) : Bool := isInArguments c && isInline c

theorem isHeading_of {p : Char → Bool} (others : ∀ c ∈ ['(', ')', '\n'], p c = false) {c : Char}
    (inside : p c = true) : isHeading c = true := by
  simp only [List.mem_cons, List.not_mem_nil, or_false, forall_eq_or_imp, forall_eq] at others
  simp only [isHeading, isInArguments, isInline, Bool.and_eq_true, bne_iff_ne]
  refine ⟨⟨?_, ?_⟩, ?_⟩ <;> rintro rfl <;> simp_all

theorem isHeading_of_isInlineBlank {c : Char} (blank : isInlineBlank c = true) : isHeading c = true :=
  isHeading_of (by decide) blank

theorem indirect_shape (reads : (Pattern.optional (literal "indirect" ++ someGap)).Reads before u after v) :
    Within isHeading u := by
  rcases reads with reads | ⟨rfl, rfl⟩
  · simp only [reads_append, reads_literal, reads_someGap] at reads
    obtain ⟨_, g, _, _, rfl, rfl, ⟨rfl, rfl⟩, blank, -⟩ := reads
    rw [within_append]
    exact ⟨by decide, blank.mono fun _ => isHeading_of_isInlineBlank⟩
  · exact within_nil _

theorem caseName_shape (reads : caseName.Reads before u after v) :
    ∃ h b, u = h ++ '(' :: b ∧ Within isHeading h ∧ Within isInArguments b := by
  simp only [caseName, identifier, reads_append, reads_literal, reads_gap, reads_someGap, Reads] at reads
  obtain ⟨_, b, _, _, rfl, rfl, ⟨_, _, _, _, rfl, rfl, ⟨_, k, _, _, rfl, rfl, ⟨g, _, _, _, rfl, rfl,
    ⟨blank, -⟩, _, w, _, _, rfl, rfl, ⟨c, start, rfl, rfl⟩, part, -⟩, blank', -⟩, rfl, rfl⟩, inside, -⟩ := reads
  refine ⟨g ++ ([c] ++ w) ++ k, b, by simp, ?_, inside.mono fun c here => ?_⟩
  · simp only [within_append, within_cons, within_nil, and_true]
    exact ⟨⟨blank.mono fun _ => isHeading_of_isInlineBlank, isHeading_of (by decide) start,
      part.mono fun _ => isHeading_of (by decide)⟩, blank'.mono fun _ => isHeading_of_isInlineBlank⟩
  · rw [Bool.and_eq_true] at here
    exact here.1

theorem caseRest_shape (reads : caseRest.Reads before u after v) :
    ∃ b, u = '\n' :: (b ++ [')']) ∧ Within isInArguments b := by
  simp only [caseRest, newline, reads_append, reads_literal, Reads] at reads
  obtain ⟨_, _, _, _, rfl, rfl, ⟨rfl, rfl⟩, b, _, _, _, rfl, rfl, ⟨inside, -⟩, rfl, rfl⟩ := reads
  exact ⟨b, rfl, inside⟩

theorem caseDeclaration_shape (reads : caseDeclaration.Reads before u after v) :
    ∃ h b, u = h ++ '(' :: (b ++ [')']) ∧ Within isHeading h ∧ Within isInArguments b ∧ '\n' ∈ b := by
  rw [caseDeclaration_eq] at reads
  simp only [reads_append, reads_literal, reads_gap, Reads] at reads
  obtain ⟨_, _, _, _, rfl, rfl, ⟨rfl, rfl, -⟩, g, _, _, _, rfl, rfl, ⟨blank, -⟩, i, _, _, _, rfl, rfl,
    indirect, _, _, _, _, rfl, rfl, ⟨rfl, rfl⟩, n, r, _, _, rfl, rfl, name, rest⟩ := reads
  obtain ⟨h, b, rfl, heading, inside⟩ := caseName_shape name
  obtain ⟨b', rfl, inside'⟩ := caseRest_shape rest
  refine ⟨g ++ i ++ "case".toList ++ h, b ++ '\n' :: b', by simp, ?_, ?_, by simp⟩
  · simp only [within_append]
    exact ⟨⟨⟨blank.mono fun _ => isHeading_of_isInlineBlank, indirect_shape indirect⟩, by decide⟩, heading⟩
  · rw [within_append, within_cons]
    exact ⟨inside, by decide, inside'⟩

theorem caseDeclaration_unique {before' : Option Char} (reads : caseDeclaration.Reads before u after v)
    (reads' : caseDeclaration.Reads before' d rest w) (same : u ++ after = d ++ rest) : u = d := by
  obtain ⟨h, b, rfl, heading, inside, -⟩ := caseDeclaration_shape reads
  obtain ⟨h', b', rfl, heading', inside', -⟩ := caseDeclaration_shape reads'
  simp only [List.append_assoc, List.cons_append, List.nil_append] at same
  obtain ⟨rfl, opened⟩ := run_unique same heading heading' ((stops_cons _ _ _).2 rfl) ((stops_cons _ _ _).2 rfl)
  obtain ⟨rfl, -⟩ := run_unique (List.cons.inj opened).2 inside inside' ((stops_cons _ _ _).2 rfl)
    ((stops_cons _ _ _).2 rfl)
  rfl

theorem caseDeclaration_apart (reads : caseDeclaration.Reads before (x ++ y) after v)
    (reads' : caseDeclaration.Reads (lastOf before x) d rest w) (same : y ++ after = d ++ rest) :
    x = [] ∨ y = [] := by
  by_contra both
  rw [not_or] at both
  obtain ⟨h, b, shape, heading, inside, -⟩ := caseDeclaration_shape reads
  obtain ⟨h', b', rfl, heading', inside', -⟩ := caseDeclaration_shape reads'
  obtain ⟨-, opens, -⟩ := reads_caseDeclaration reads'
  have inline : ∀ r, h = x ++ r → False := by
    rintro r rfl
    rw [within_append] at heading
    refine not_opensLine both.1 (heading.1.mono fun c here => ?_) opens
    rw [isHeading, Bool.and_eq_true] at here
    exact here.2
  -- The place is behind a newline, so it is among the arguments, where the next parenthesis is a closing one.
  rcases List.append_eq_append_iff.1 shape with ⟨r, split, -⟩ | ⟨r, rfl, split⟩
  · exact inline r split
  · cases r with
    | nil => exact inline [] (by simp)
    | cons c r =>
        obtain ⟨y, e, rfl⟩ := (List.eq_nil_or_concat y).resolve_left both.2
        rw [List.concat_eq_append] at split same
        have arguments : b ++ [')'] = (r ++ y) ++ [e] := by simpa using (List.cons.inj split).2
        obtain ⟨rfl, last⟩ := List.append_inj' arguments rfl
        obtain rfl : ')' = e := by simpa using last
        rw [within_append] at inside
        simp only [List.append_assoc, List.cons_append, List.nil_append] at same
        have heading' : Within isInArguments h' := heading'.mono fun c here => by
          rw [isHeading, Bool.and_eq_true] at here
          exact here.1
        obtain ⟨-, parenthesis⟩ := run_unique same inside.2 heading' ((stops_cons _ _ _).2 rfl)
          ((stops_cons _ _ _).2 rfl)
        exact absurd (List.cons.inj parenthesis).1 (by decide)

theorem caseDeclaration_lines (reads : caseDeclaration.Reads before d after v) :
    ∃ first z, ∀ e, Within isInline e → filledLines (d ++ e) = first ++ [z ++ ')' :: trimEnd e] := by
  obtain ⟨h, b, rfl, -, -, broken⟩ := caseDeclaration_shape reads
  obtain ⟨p, q, rfl, inline, breaks⟩ := exists_run_end isInline b
  have filled : p ≠ [] := by
    rintro rfl
    rw [List.nil_append] at broken
    exact absurd (inline _ broken) (by decide)
  obtain ⟨p, c, rfl⟩ := (List.eq_nil_or_concat p).resolve_left filled
  obtain rfl : c = '\n' := by simpa [isInline] using breaks
  obtain ⟨z, line⟩ := trim_append (c := ')') (by decide) q
  refine ⟨filledLines (h ++ '(' :: p), z, fun e inline' => ?_⟩
  have whole : h ++ '(' :: (p.concat '\n' ++ q ++ [')']) ++ e =
      (h ++ '(' :: p) ++ '\n' :: (q ++ ')' :: e) := by simp
  have last : Within isInline (q ++ ')' :: e) := by
    rw [within_append, within_cons]
    exact ⟨inline, by decide, inline'⟩
  have single : filledLines (q ++ ')' :: e) = [z ++ ')' :: trimEnd e] := by
    rw [filledLines, lines_last last, List.map_singleton, line]
    simp
  rw [whole, filledLines_newline, single]

theorem codeTokens_oneLine (reads : caseDeclaration.Reads before d after v) (s : List Char) :
    KeptIf (Joinable (filledLines d)) (tokens (code (d ++ s))) (tokens (code (RuleSet.oneLine ';' d ++ s))) := by
  obtain ⟨first, z, lines⟩ := caseDeclaration_lines reads
  obtain ⟨e, s, rfl, inline, breaks⟩ := exists_run isInline s
  have whole := lines e inline
  have alone := lines [] (within_nil _)
  rw [List.append_nil] at alone
  obtain ⟨h, ends, blank⟩ := exists_trimEnd e
  have trimmed : Within isInline (trimEnd e) := by
    rw [ends, within_append] at inline
    exact inline.1
  have joinable : Joinable (filledLines (d ++ e)) ↔ Joinable (filledLines d) := by
    rw [whole, alone]
    apply joinable_concat_congr
    · exact codeInk_extend (by decide) (by decide) trimmed
    · cases z <;> rfl
  have onward : onOneLine (d ++ e) = onOneLine d ++ trimEnd e := by
    rw [onOneLine_eq, onOneLine_eq, whole, alone]
    simp [trimEnd]
  have joined : tokens (code (RuleSet.oneLine ';' d ++ e)) = tokens (code (onOneLine (d ++ e))) := by
    calc tokens (code ([';'] ++ (onOneLine d ++ e)))
        = tokens (code (onOneLine d ++ e)) := codeTokens_gap (by decide)
      _ = tokens (code ((onOneLine d ++ trimEnd e) ++ h)) := by rw [List.append_assoc, ← ends]
      _ = tokens (code (onOneLine (d ++ e))) := by
          rw [onward, codeTokens_gap_end (blank.mono fun _ => isSpacing_of_isBlank)]
  have kept := (codeTokens_onOneLine (d ++ e)).congr joinable
  rw [← List.append_assoc, ← List.append_assoc, codeTokens_break breaks, codeTokens_break breaks, joined]
  exact kept.append_right _

theorem lastOf_oneLine (reads : caseDeclaration.Reads before d after v) (o : Option Char) :
    lastOf o (RuleSet.oneLine ';' d) = some ')' ∧ lastOf o d = some ')' := by
  obtain ⟨h, b, shape, -⟩ := caseDeclaration_shape reads
  obtain ⟨first, z, lines⟩ := caseDeclaration_lines reads
  have alone := lines [] (within_nil _)
  rw [List.append_nil] at alone
  constructor
  · rw [RuleSet.oneLine, onOneLine_eq, alone]
    simp [trimEnd]
  · rw [shape]
    simp

/-- The declarations in a text have lines that may be put together. -/
def JoinableDeclarations (before : Option Char) (s : List Char) : Prop :=
  ∀ x d y v, s = x ++ (d ++ y) → caseDeclaration.Reads (lastOf before x) d y v → Joinable (filledLines d)

theorem joinableDeclarations_nil : JoinableDeclarations before [] := by
  intro x d y v split reads
  have empty : d = [] := by simp_all
  exact absurd empty (caseDeclaration_advances _ _ _ _ reads)

theorem joinableDeclarations_cons {c : Char} (fails : caseDeclaration.Fails before (c :: s)) :
    JoinableDeclarations before (c :: s) ↔ JoinableDeclarations (some c) s := by
  constructor
  · intro every x d y v split reads
    exact every (c :: x) d y v (by simp [split]) reads
  · intro every x d y v split reads
    cases x with
    | nil => exact absurd reads (fails d y v split)
    | cons e x =>
        obtain ⟨rfl, rest⟩ := List.cons.inj split
        exact every x d y v rest reads

theorem joinableDeclarations_append (reads : caseDeclaration.Reads before u after v) :
    JoinableDeclarations before (u ++ after) ↔
      JoinableDeclarations (lastOf before u) after ∧ Joinable (filledLines u) := by
  constructor
  · intro every
    refine ⟨fun x d y w split reads' => ?_, every [] u after v rfl reads⟩
    exact every (u ++ x) d y w (by simp [split]) (by simpa using reads')
  · rintro ⟨later, here⟩ x d y w split reads'
    rcases List.append_eq_append_iff.1 split with ⟨r, rfl, rest⟩ | ⟨r, rfl, rest⟩
    · exact later r d y w rest (by simpa using reads')
    · rcases caseDeclaration_apart reads reads' rest.symm with rfl | rfl
      · obtain rfl : r = d := caseDeclaration_unique reads reads' rest.symm
        exact here
      · rw [List.append_nil] at reads later
        exact later [] d y w rest.symm reads'

theorem codeTokens_lineStart (opens : OpensLine (lastOf none x)) (s : List Char) :
    tokens (code (x ++ s)) = tokens (code x) ++ tokens (code s) := by
  rcases List.eq_nil_or_concat x with rfl | ⟨x, c, rfl⟩
  · rfl
  · obtain rfl : c = '\n' := by simpa using opens
    have newline : ∀ z, '\n' :: z = ['\n'] ++ z := fun _ => rfl
    have whole : x.concat '\n' ++ s = x ++ '\n' :: s := by simp
    rw [whole, List.concat_eq_append, codeTokens_break (by simp [isInline]), newline, codeTokens_gap (by decide),
      codeTokens_gap_end (by decide)]

theorem codeTokens_joined (joined : RuleSet.Joined ';' caseDeclaration before s out) (p : List Char)
    (here : lastOf none p = before) :
    KeptIf (JoinableDeclarations before s) (tokens (code (p ++ s))) (tokens (code (p ++ out))) := by
  induction joined generalizing p with
  | done => exact ⟨fun _ => rfl, fun lost => absurd joinableDeclarations_nil lost⟩
  | @join before u after v out reads later ih =>
      obtain ⟨rfl, opens, -⟩ := reads_caseDeclaration reads
      obtain ⟨ends, ends'⟩ := lastOf_oneLine reads before
      rw [ends] at ih
      rw [← here] at opens
      have kept := (ih v (lastOf_oneLine reads none).2).trans (codeTokens_oneLine reads out)
      rw [codeTokens_lineStart opens, codeTokens_lineStart opens]
      apply (kept.append_left _).congr
      rw [joinableDeclarations_append reads, ends']
  | @skip before c s out fails later ih =>
      have kept := ih (p ++ [c]) (by simp)
      rw [List.append_assoc, List.append_assoc] at kept
      exact kept.congr (joinableDeclarations_cons fails).symm

/-- Putting declarations on one line keeps the tokens of the code just when the lines of each of them may be put
together. -/
theorem codeTokens_join_iff (production : Bool) (s : List Char) :
    tokens (code ((ruleSet ⟨true, production⟩).join s)) = tokens (code s) ↔ JoinableDeclarations none s := by
  have joined := RuleSet.joinDeclarations_joined ';' caseDeclaration_advances s
  exact (codeTokens_joined joined [] rfl).eq_iff

/-- Not every text keeps the tokens of its code: what comes behind a comment in a declaration is lost. -/
theorem codeTokens_join_commented : ¬ ∀ s : List Char, '\x22' ∉ s →
    tokens (code ((ruleSet ⟨true, false⟩).join s)) = tokens (code s) := by
  intro every
  have kept := every "case a(x: Int, // first\ny: Int)\n".toList (by decide)
  revert kept
  decide +kernel

end Swift

end SourceBundle
