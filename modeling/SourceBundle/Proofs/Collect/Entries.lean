import SourceBundle.Proofs.Collect.Paths
import Mathlib.Data.String.Basic

/-!
What is found in a proper directory is proper, and so are the names that lead to it.
-/

namespace SourceBundle.Entries.Raw

variable {name : String} {node : Node} {entries : Entries.Raw} {place : Location}

theorem mem_names (found : entries.find? name = some node) : name ∈ entries.names := by
  induction entries using walkInduction with
  | empty => cases found
  | directory first inner others _ ih | leaf first old others _ ih =>
      rw [find?_entry] at found
      split at found
      · rename_i same
        simp [names, same]
      · exact List.mem_cons_of_mem _ (ih found)

theorem isName_of_at? (proper : entries.proper = true) (found : entries.at? place = some node) :
    ∀ name ∈ place, isName name = true := by
  induction place generalizing entries with
  | nil => simp
  | cons name place ih =>
      rw [at?] at found
      cases first : entries.find? name with
      | none =>
          rw [first] at found
          cases found
      | some step =>
          rw [first] at found
          obtain ⟨named, inside⟩ := proper_of_find? proper first
          rw [List.forall_mem_cons]
          refine ⟨named, ?_⟩
          cases step with
          | directory inner => exact ih inside found
          | file content mode | link target =>
              have last : place = [] := by
                by_contra filled
                simp [filled] at found
              simp [last]

theorem proper_of_at? (proper : entries.proper = true) (found : entries.at? place = some node) :
    node.proper = true := by
  induction place generalizing entries with
  | nil =>
      obtain rfl : .directory entries = node := Option.some.inj found
      exact proper
  | cons name place ih =>
      rw [at?] at found
      cases first : entries.find? name with
      | none =>
          rw [first] at found
          cases found
      | some step =>
          rw [first] at found
          cases step with
          | directory inner => exact ih (proper_of_find? proper first).2 found
          | file content mode | link target =>
              simp only [Option.ite_none_right_eq_some, Option.some.injEq] at found
              rw [← found.2]
              rfl

end SourceBundle.Entries.Raw
