import SourceBundle.Proofs.Sweep
import Mathlib.Algebra.GroupWithZero.Nat
import Mathlib.Data.Option.NAry

/-!
Sizes in bytes. What a reading takes at least, and what it takes beyond what it writes, can be computed from the
pattern. A pattern of which every reading takes something, and no less than it writes, never makes a text longer.
-/

namespace SourceBundle

open Text

namespace Text

variable {s x y : List Char}

def byteSize (s : List Char) : Nat := (s.map Char.utf8Size).sum

@[simp] theorem byteSize_nil : byteSize [] = 0 := rfl

@[simp] theorem byteSize_cons (c : Char) (s : List Char) : byteSize (c :: s) = c.utf8Size + byteSize s := rfl

@[simp] theorem byteSize_append : byteSize (x ++ y) = byteSize x + byteSize y := by simp [byteSize]

theorem byteSize_pos (filled : s ≠ []) : 0 < byteSize s := by
  obtain ⟨c, s, rfl⟩ := List.exists_cons_of_ne_nil filled
  have := c.utf8Size_pos
  rw [byteSize_cons]
  omega

theorem utf8ByteSize_ofList (s : List Char) : (String.ofList s).utf8ByteSize = byteSize s := by
  induction s with
  | nil => rfl
  | cons c s ih => rw [String.ofList_cons, String.utf8ByteSize_append, String.utf8ByteSize_singleton, ih, byteSize_cons]

end Text

namespace Pattern

def least : Pattern → Nat
  | one _ => 1
  | text s => byteSize s
  | all nonempty _ => if nonempty then 1 else 0
  | andThen a b => a.least + b.least
  | orElse a b => min a.least b.least
  | drop a => a.least
  | few _ | upTo _ _ | repeated _ | lineStart | textEnd | wordEdge | write _ => 0

/-- The bytes that a reading takes beyond those that it writes, at least. There is no bound where a body is repeated
that may write more than it takes. -/
def saving : Pattern → Option Int
  | andThen a b => Option.map₂ (· + ·) a.saving b.saving
  | orElse a b => Option.map₂ min a.saving b.saving
  | repeated a => if ∃ n ∈ a.saving, 0 ≤ n then some 0 else none
  | drop a => some a.least
  | write s => some (-byteSize s)
  | one _ | text _ | all _ _ | few _ | upTo _ _ | lineStart | textEnd | wordEdge => some 0

variable {p : Pattern} {before : Option Char} {s u after v out : List Char}

theorem least_le (reads : p.Reads before u after v) : p.least ≤ byteSize u := by
  induction p generalizing before u after v with
  | one p =>
      obtain ⟨c, -, rfl, -⟩ := reads
      exact byteSize_pos (by simp)
  | text s =>
      obtain ⟨rfl, -⟩ := reads
      exact le_rfl
  | all nonempty p =>
      obtain ⟨-, filled, -⟩ := reads
      rw [least]
      split
      · exact byteSize_pos (filled ‹_›)
      · exact Nat.zero_le _
  | andThen a b first second =>
      obtain ⟨u₁, u₂, v₁, v₂, rfl, -, reads₁, reads₂⟩ := reads
      rw [byteSize_append]
      exact Nat.add_le_add (first reads₁) (second reads₂)
  | orElse a b first second =>
      rcases reads with reads | reads
      · exact (Nat.min_le_left _ _).trans (first reads)
      · exact (Nat.min_le_right _ _).trans (second reads)
  | drop a body =>
      obtain ⟨-, w, reads⟩ := reads
      exact body reads
  | _ => exact Nat.zero_le _

theorem advances_of_least (takes : 0 < p.least) : p.Advances := by
  rintro before u after v reads rfl
  exact absurd (least_le reads) (Nat.not_le.2 takes)

theorem Rounds.byteSize_le {body : Reading} {n : Nat}
    (each : ∀ before u after v, body before u after v → byteSize v ≤ byteSize u)
    (rounds : Rounds body n before u after v) : byteSize v ≤ byteSize u := by
  induction rounds with
  | stop => exact le_rfl
  | round reads _ ih =>
      rw [byteSize_append, byteSize_append]
      exact Nat.add_le_add (each _ _ _ _ reads) ih

theorem saving_le {n : Int} (known : n ∈ p.saving) (reads : p.Reads before u after v) :
    byteSize v + n ≤ byteSize u := by
  induction p generalizing before u after v n with
  | andThen a b first second =>
      obtain ⟨u₁, u₂, v₁, v₂, rfl, rfl, reads₁, reads₂⟩ := reads
      obtain ⟨m, k, known₁, known₂, rfl⟩ := Option.mem_map₂_iff.1 known
      have here := first known₁ reads₁
      have there := second known₂ reads₂
      rw [byteSize_append, byteSize_append]
      omega
  | orElse a b first second =>
      obtain ⟨m, k, known₁, known₂, rfl⟩ := Option.mem_map₂_iff.1 known
      rcases reads with reads | reads
      · have here := first known₁ reads
        omega
      · have here := second known₂ reads
        omega
  | repeated a body =>
      obtain ⟨rounds, -, reads⟩ := reads
      rw [saving] at known
      split at known
      · obtain rfl : 0 = n := Option.some.inj known
        rename_i bounded
        obtain ⟨m, known, saves⟩ := bounded
        -- What one round loses, several would lose several times, so each of them has to lose nothing.
        have each : ∀ before u after v, a.Reads before u after v → byteSize v ≤ byteSize u := by
          intro before u after v reads
          have := body known reads
          omega
        have := reads.byteSize_le each
        omega
      · cases known
  | drop a =>
      obtain ⟨rfl, w, reads⟩ := reads
      obtain rfl : (a.least : Int) = n := Option.some.inj known
      have := least_le reads
      rw [byteSize_nil]
      omega
  | write s =>
      obtain ⟨rfl, rfl⟩ := reads
      obtain rfl : -(byteSize v : Int) = n := Option.some.inj known
      rw [byteSize_nil]
      omega
  | one p =>
      obtain ⟨c, -, rfl, rfl⟩ := reads
      obtain rfl : 0 = n := Option.some.inj known
      omega
  | text s =>
      obtain ⟨rfl, rfl⟩ := reads
      obtain rfl : 0 = n := Option.some.inj known
      omega
  | all nonempty p =>
      obtain ⟨-, -, -, rfl⟩ := reads
      obtain rfl : 0 = n := Option.some.inj known
      omega
  | few p =>
      obtain ⟨-, rfl⟩ := reads
      obtain rfl : 0 = n := Option.some.inj known
      omega
  | upTo run p =>
      obtain ⟨-, -, -, rfl⟩ := reads
      obtain rfl : 0 = n := Option.some.inj known
      omega
  | lineStart | textEnd | wordEdge =>
      obtain ⟨rfl, rfl, -⟩ := reads
      obtain rfl : 0 = n := Option.some.inj known
      omega

/-- Every reading takes something, and no fewer bytes than it writes. -/
structure Thrifty (p : Pattern) : Prop where
  takes : 0 < p.least
  saves : ∃ n ∈ p.saving, 0 ≤ n

instance : DecidablePred Thrifty := fun p =>
  decidable_of_iff (0 < p.least ∧ ∃ n ∈ p.saving, 0 ≤ n) ⟨fun ⟨takes, saves⟩ => ⟨takes, saves⟩, fun h => ⟨h.takes, h.saves⟩⟩

namespace Thrifty

theorem byteSize_le (thrifty : p.Thrifty) (reads : p.Reads before u after v) : byteSize v ≤ byteSize u := by
  obtain ⟨n, known, saves⟩ := thrifty.saves
  have := saving_le known reads
  omega

theorem byteSize_rewrite (thrifty : p.Thrifty) (s : List Char) : byteSize (p.rewrite s) ≤ byteSize s := by
  refine (rewrite_swept (advances_of_least thrifty.takes) s).relates (R := fun s out => byteSize out ≤ byteSize s)
    (fun _ => le_rfl) (fun first second => second.trans first) (fun w x y shorter => ?_) fun before u after v reads => ?_
  · simpa using shorter
  · simpa using thrifty.byteSize_le reads

end Thrifty

end Pattern

end SourceBundle
