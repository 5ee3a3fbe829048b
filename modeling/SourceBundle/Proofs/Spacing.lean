import SourceBundle.Swift.Lexeme
import Mathlib.Algebra.GroupWithZero.Nat

/-!
Spacing: the blanks, and the semicolons that the rules write for them. No spacing is a word
character or part of an operator.
-/

namespace SourceBundle.Text

def isSpacing (c : Char) : Bool := isBlank c || c == ';'

def isOperator (c : Char) : Bool := "/=-+!*%<>&|^~?".toList.contains c

def blankCodes : List Nat :=
  [0x09, 0x0A, 0x0B, 0x0C, 0x0D, 0x20, 0x85, 0xA0, 0x1680, 0x2000, 0x2001, 0x2002, 0x2003, 0x2004,
    0x2005, 0x2006, 0x2007, 0x2008, 0x2009, 0x200A, 0x2028, 0x2029, 0x202F, 0x205F, 0x3000]

theorem toNat_mem_blankCodes {c : Char} (blank : isBlank c = true) : c.toNat ∈ blankCodes := by
  simp only [isBlank] at blank
  simp only [blankCodes, List.mem_cons, List.not_mem_nil, or_false]
  split at blank
  · simp only [Bool.or_eq_true, Bool.and_eq_true, beq_iff_eq, decide_eq_true_eq] at blank
    omega
  · simp only [Bool.or_eq_true, Bool.and_eq_true, beq_iff_eq, decide_eq_true_eq] at blank
    omega

theorem of_isBlank {P : Char → Prop} (each : ∀ n ∈ blankCodes, P (Char.ofNat n)) {c : Char}
    (blank : isBlank c = true) : P c := by
  have here := each _ (toNat_mem_blankCodes blank)
  rwa [Char.ofNat_toNat] at here

theorem isWord_of_isBlank {c : Char} (blank : isBlank c = true) : isWord c = false :=
  of_isBlank (P := fun c => isWord c = false) (by decide +kernel) blank

theorem isOperator_of_isBlank {c : Char} (blank : isBlank c = true) : isOperator c = false :=
  of_isBlank (P := fun c => isOperator c = false) (by decide +kernel) blank

theorem isSpacing_of_isBlank {c : Char} (blank : isBlank c = true) : isSpacing c = true := by
  simp [isSpacing, blank]

theorem isSpacing_iff {c : Char} : isSpacing c = true ↔ isBlank c = true ∨ c = ';' := by
  simp [isSpacing]

theorem isWord_of_isSpacing {c : Char} (spacing : isSpacing c = true) : isWord c = false := by
  rcases isSpacing_iff.1 spacing with blank | rfl
  · exact isWord_of_isBlank blank
  · decide

theorem isOperator_of_isSpacing {c : Char} (spacing : isSpacing c = true) :
    isOperator c = false := by
  rcases isSpacing_iff.1 spacing with blank | rfl
  · exact isOperator_of_isBlank blank
  · decide

/-- A space is the lightest character and a newline the heaviest. -/
def heft (c : Char) : Nat := if c = ' ' then 1 else if c = '\n' then 3 else 2

def weight (s : List Char) : Nat := (s.map heft).sum

@[simp] theorem weight_nil : weight [] = 0 := rfl

@[simp] theorem weight_cons (c : Char) (s : List Char) : weight (c :: s) = heft c + weight s := by
  simp [weight]

@[simp] theorem weight_append (s w : List Char) : weight (s ++ w) = weight s + weight w := by
  simp [weight]

theorem heft_pos (c : Char) : 1 ≤ heft c := by
  simp only [heft]
  split
  · omega
  · split <;> omega

theorem weight_pos {s : List Char} (nonempty : s ≠ []) : 1 ≤ weight s := by
  obtain ⟨c, s, rfl⟩ := List.exists_cons_of_ne_nil nonempty
  have := heft_pos c
  rw [weight_cons]
  omega

theorem space_lightest {s : List Char} (nonempty : s ≠ []) :
    s = [' '] ∨ weight [' '] < weight s := by
  obtain ⟨c, s, rfl⟩ := List.exists_cons_of_ne_nil nonempty
  by_cases space : c = ' '
  · subst space
    by_cases empty : s = []
    · simp [empty]
    · have := weight_pos empty
      simp only [weight_cons, weight_nil]
      omega
  · have heavier : 2 ≤ heft c := by
      simp only [heft, space, if_false]
      split <;> omega
    have light : heft ' ' = 1 := rfl
    simp only [weight_cons, weight_nil, light]
    omega

end SourceBundle.Text
