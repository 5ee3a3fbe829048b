import SourceBundle.Text.Blank

/-!
Cutting a text at a mark. The mark belongs to neither side, so a text with `n` marks has `n + 1`
stretches; a text cut at the newline is its lines.
-/

namespace SourceBundle.Text

/-- The stretches between the marks; there is always at least one. -/
def cut (mark : Char) (s : List Char) : List (List Char) :=
  s.foldr
    (fun c stretches =>
      if c = mark then [] :: stretches
      else match stretches with
        | [] => [[c]]
        | first :: later => (c :: first) :: later)
    [[]]

def cutString (mark : Char) (s : String) : List String := (cut mark s.toList).map String.ofList

def lines (s : List Char) : List (List Char) := cut '\n' s

def onOneLine (s : List Char) : List Char := (lines s).flatMap trim

@[simp] theorem cut_nil (mark : Char) : cut mark [] = [[]] := rfl

theorem cut_cons (mark c : Char) (s : List Char) :
    cut mark (c :: s) = if c = mark then [] :: cut mark s else
      match cut mark s with
      | [] => [[c]]
      | first :: later => (c :: first) :: later := rfl

theorem cut_ne_nil (mark : Char) (s : List Char) : cut mark s ≠ [] := by
  cases s with
  | nil => simp
  | cons c s =>
    rw [cut_cons]
    split
    · simp
    · split <;> simp

theorem mark_not_mem_of_mem_cut {mark : Char} {s stretch : List Char} (h : stretch ∈ cut mark s) :
    mark ∉ stretch := by
  induction s generalizing stretch with
  | nil => simp_all
  | cons c s ih =>
    rw [cut_cons] at h
    split at h
    · rcases List.mem_cons.1 h with rfl | h
      · simp
      · exact ih h
    · rename_i differs
      cases stretches : cut mark s with
      | nil => exact absurd stretches (cut_ne_nil mark s)
      | cons first later =>
        rw [stretches] at h ih
        rcases List.mem_cons.1 h with rfl | h
        · simp only [List.mem_cons, not_or]
          exact ⟨Ne.symm differs, ih (by simp)⟩
        · exact ih (by simp [h])

theorem cut_of_not_mem {mark : Char} {s : List Char} (absent : mark ∉ s) : cut mark s = [s] := by
  induction s with
  | nil => rfl
  | cons c s ih =>
    rw [List.mem_cons, not_or] at absent
    rw [cut_cons, if_neg (Ne.symm absent.1), ih absent.2]

theorem cut_append_mark (mark : Char) (s w : List Char) :
    cut mark (s ++ mark :: w) = cut mark s ++ cut mark w := by
  induction s with
  | nil => rw [List.nil_append, cut_cons, if_pos rfl, cut_nil, List.singleton_append]
  | cons c s ih =>
    rw [List.cons_append, cut_cons, cut_cons, ih]
    split
    · rw [List.cons_append]
    · obtain ⟨first, later, stretches⟩ := List.exists_cons_of_ne_nil (cut_ne_nil mark s)
      rw [stretches]
      rfl

end SourceBundle.Text
