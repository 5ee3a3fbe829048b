import Mathlib.Data.List.Basic
import Mathlib.Tactic.SplitIfs

/-!
The order of texts and the order of their bytes. UTF-8 keeps the order of the code points, so texts in increasing
order of their characters are in increasing order of their bytes.
-/

namespace SourceBundle.Text

def bytes (s : String) : List UInt8 := s.toUTF8.data.toList

theorem bytes_eq (s : String) : bytes s = s.toList.flatMap String.utf8EncodeChar := by
  have spelled : s.toUTF8 = (String.ofList s.toList).toByteArray := by
    rw [String.ofList_toList]
    rfl
  rw [bytes, spelled, String.toByteArray_ofList, List.utf8Encode]
  simp

variable {c d : Char} {a b : List Char}

/-- The first byte in which two characters differ decides, and neither is the start of the other. -/
theorem utf8EncodeChar_lt (less : c < d) (u w : List UInt8) :
    String.utf8EncodeChar c ++ u < String.utf8EncodeChar d ++ w := by
  have codes : c.val.toNat < d.val.toNat := less
  have bound : d.val.toNat < 0x110000 := by
    have := d.valid
    rcases this with small | ⟨-, large⟩ <;> omega
  have byte : ∀ n, n < 256 → (UInt8.ofNat n).toNat = n := fun n small => UInt8.toNat_ofNat_of_lt' small
  have digits : ∀ n < 0x110000, n / 64 / 64 = n / 4096 ∧ n / 4096 / 64 = n / 262144 ∧ n / 262144 / 8 = 0 := by
    intro n small
    omega
  have lower := digits c.val.toNat (by omega)
  have upper := digits d.val.toNat bound
  simp only [String.utf8EncodeChar]
  -- The number of bytes grows with the code, and so does the first byte with their number.
  split_ifs <;>
    simp only [List.cons_append, List.nil_append, List.cons_lt_cons_iff, UInt8.lt_iff_toNat_lt,
      ← UInt8.toNat_inj] <;>
    simp (disch := omega) only [byte] <;>
    omega

theorem utf8_lt (less : a < b) : a.flatMap String.utf8EncodeChar < b.flatMap String.utf8EncodeChar := by
  induction less with
  | @nil d b =>
      obtain ⟨x, z, spelled⟩ := List.exists_cons_of_ne_nil (String.utf8EncodeChar_ne_nil (c := d))
      rw [List.flatMap_nil, List.flatMap_cons, spelled]
      exact List.nil_lt_cons _ _
  | @rel c a d b less =>
      rw [List.flatMap_cons, List.flatMap_cons]
      exact utf8EncodeChar_lt less _ _
  | @cons c a b _ ih =>
      rw [List.flatMap_cons, List.flatMap_cons]
      exact List.append_left_lt ih

theorem bytes_lt {s t : String} (less : s < t) : bytes s < bytes t := by
  rw [bytes_eq, bytes_eq]
  exact utf8_lt less

end SourceBundle.Text
