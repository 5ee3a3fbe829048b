import SourceBundle.Proofs.Reading
import SourceBundle.Proofs.Spacing

/-!
Line comments. A comment goes from two slashes to the end of the line. `code` is a text without its
comments, `ink` is a text without its spacing. A scan goes from left to right and knows whether it is
inside a comment.
-/

namespace SourceBundle.Text

def ink (s : List Char) : List Char := s.filter fun c => !isSpacing c

/-- Whether a character in front of `s` is part of a comment. -/
def isCommented (inside : Bool) (c : Char) (s : List Char) : Bool :=
  c != '\n' && (inside || (c == '/' && s.head? == some '/'))

/-- The text without its comments, where the scan starts inside a comment or not. -/
def codeFrom : Bool → List Char → List Char
  | _, [] => []
  | inside, c :: s =>
      if isCommented inside c s then codeFrom true s else c :: codeFrom false s

def code : List Char → List Char := codeFrom false

def inComment : Bool → List Char → Bool
  | inside, [] => inside
  | inside, c :: s => inComment (isCommented inside c s) s

/-- The code of a text without its spacing. -/
def codeInk (inside : Bool) (s : List Char) : List Char := ink (codeFrom inside s)

/-- Whether a scan is inside a comment after spacing. -/
def afterGap (inside : Bool) (g : List Char) : Bool := inside && !g.contains '\n'

variable {inside : Bool} {c : Char} {g s x y : List Char}

@[simp] theorem ink_nil : ink [] = [] := rfl

@[simp] theorem ink_append : ink (x ++ y) = ink x ++ ink y := List.filter_append _ _

theorem ink_cons_spacing (spacing : isSpacing c = true) : ink (c :: s) = ink s := by
  simp [ink, spacing]

theorem ink_cons_solid (solid : isSpacing c = false) : ink (c :: s) = c :: ink s := by
  simp [ink, solid]

theorem ink_eq_nil : ink s = [] ↔ Within isSpacing s := by
  simp [ink, Within]

@[simp] theorem codeInk_nil : codeInk inside [] = [] := rfl

theorem codeInk_cons_spacing (spacing : isSpacing c = true) :
    codeInk inside (c :: s) = codeInk (isCommented inside c s) s := by
  cases commented : isCommented inside c s <;>
    simp [codeInk, codeFrom, commented, ink_cons_spacing spacing]

theorem codeInk_cons_commented (commented : isCommented inside c s = true) :
    codeInk inside (c :: s) = codeInk true s := by
  simp [codeInk, codeFrom, commented]

theorem codeInk_cons_code (solid : isSpacing c = false) (code : isCommented inside c s = false) :
    codeInk inside (c :: s) = c :: codeInk false s := by
  simp [codeInk, codeFrom, code, ink_cons_solid solid]

theorem isCommented_spacing (spacing : isSpacing c = true) :
    isCommented inside c s = afterGap inside [c] := by
  have slash : c ≠ '/' := by
    rintro rfl
    exact absurd spacing (by decide)
  by_cases newline : c = '\n'
  · simp [isCommented, afterGap, newline]
  · have other : (c != '\n') = true := bne_iff_ne.2 newline
    have slash' : (c == '/') = false := beq_false_of_ne slash
    simp [isCommented, afterGap, other, slash', Ne.symm newline]

@[simp] theorem afterGap_nil : afterGap inside [] = inside := by simp [afterGap]

theorem afterGap_append : afterGap inside (x ++ y) = afterGap (afterGap inside x) y := by
  simp [afterGap, Bool.and_assoc]

theorem codeInk_gap (spacing : Within isSpacing g) :
    codeInk inside (g ++ s) = codeInk (afterGap inside g) s := by
  induction g generalizing inside with
  | nil => simp
  | cons c g ih =>
      rw [within_cons] at spacing
      rw [List.cons_append, codeInk_cons_spacing spacing.1, isCommented_spacing spacing.1,
        ih spacing.2, ← afterGap_append, List.singleton_append]

theorem codeInk_spacing (spacing : Within isSpacing g) : codeInk inside g = [] := by
  have gap : codeInk inside (g ++ []) = codeInk (afterGap inside g) [] := codeInk_gap spacing
  simpa using gap

theorem inComment_gap (spacing : Within isSpacing g) :
    inComment inside (g ++ s) = inComment (afterGap inside g) s := by
  induction g generalizing inside with
  | nil => simp
  | cons c g ih =>
      rw [within_cons] at spacing
      rw [List.cons_append, inComment, isCommented_spacing spacing.1, ih spacing.2, ← afterGap_append,
        List.singleton_append]

theorem codeInk_cons (inside : Bool) (c : Char) (s : List Char) :
    codeInk inside (c :: s) =
      (if isCommented inside c s || isSpacing c then [] else [c]) ++
        codeInk (isCommented inside c s) s := by
  cases commented : isCommented inside c s with
  | true => simp [codeInk_cons_commented commented]
  | false =>
      cases spacing : isSpacing c with
      | true => simp [codeInk_cons_spacing spacing, commented]
      | false => simp [codeInk_cons_code spacing commented]

theorem codeInk_comment (inline : Within isInline x) : codeInk true (x ++ s) = codeInk true s := by
  induction x with
  | nil => rfl
  | cons c x ih =>
      rw [within_cons] at inline
      have commented : isCommented true c (x ++ s) = true := by
        simpa [isCommented, isInline] using inline.1
      rw [List.cons_append, codeInk_cons_commented commented, ih inline.2]

theorem codeInk_slashes : codeInk inside ('/' :: '/' :: s) = codeInk true s := by
  rw [codeInk_cons_commented (by simp [isCommented]), codeInk_cons_commented (by simp [isCommented])]

theorem codeInk_lineEnd (stops : Stops isInline s) (inside inside' : Bool) :
    codeInk inside s = codeInk inside' s := by
  cases s with
  | nil => rfl
  | cons c s =>
      obtain rfl : c = '\n' := by simpa [isInline] using stops
      simp [codeInk_cons, isCommented]

end SourceBundle.Text
