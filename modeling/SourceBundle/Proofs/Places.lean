import SourceBundle.Proofs.Respacing

/-!
Properties of the places of a text: wherever the character before a place is of one kind, the text
after it is of another. A change of spacing keeps such a property when it does so at its two ends.
-/

namespace SourceBundle

open Text

/-- Wherever `A` holds of the character before a place, `B` holds of the text after it; the text goes
on after the character `o`. -/
def Throughout (A : Option Char → Prop) (B : List Char → Prop) (o : Option Char) (s : List Char) :
    Prop :=
  ∀ p q, s = p ++ q → A (lastOf o p) → B q

variable {A : Option Char → Prop} {B : List Char → Prop} {o : Option Char} {c : Char}
  {s u x g h y : List Char}

@[simp] theorem throughout_nil : Throughout A B o [] ↔ (A o → B []) := by
  simp [Throughout]

@[simp] theorem throughout_cons :
    Throughout A B o (c :: s) ↔ (A o → B (c :: s)) ∧ Throughout A B (some c) s := by
  constructor
  · intro every
    exact ⟨every [] (c :: s) rfl, fun p q split => every (c :: p) q (by simp [split])⟩
  · rintro ⟨here, later⟩ p q split
    cases p with
    | nil =>
        rw [List.nil_append] at split
        exact split ▸ here
    | cons d p =>
        obtain ⟨rfl, rest⟩ := List.cons.inj split
        exact later p q rest

theorem throughout_append :
    Throughout A B o (u ++ s) ↔
      (∀ p q, u = p ++ q → q ≠ [] → A (lastOf o p) → B (q ++ s)) ∧ Throughout A B (lastOf o u) s := by
  induction u generalizing o with
  | nil =>
      simp only [List.nil_append, lastOf_nil, List.nil_eq_append_iff]
      exact ⟨fun every => ⟨fun p q empty nonempty => absurd empty.2 nonempty, every⟩, And.right⟩
  | cons c u ih =>
      rw [List.cons_append, throughout_cons, ih, ← and_assoc]
      refine and_congr_left fun _ => ?_
      constructor
      · rintro ⟨here, later⟩ p q split nonempty
        cases p with
        | nil =>
            rw [List.nil_append] at split
            exact split ▸ here
        | cons d p =>
            obtain ⟨rfl, rest⟩ := List.cons.inj split
            exact later p q rest nonempty
      · intro every
        exact ⟨every [] (c :: u) rfl (by simp), fun p q split => every (c :: p) q (by simp [split])⟩

theorem throughout_append_of (nonempty : u ≠ []) (none : ∀ c ∈ u, ¬ A (some c)) :
    Throughout A B o (u ++ s) ↔ (A o → B (u ++ s)) ∧ Throughout A B (lastOf o u) s := by
  rw [throughout_append]
  refine and_congr_left fun _ => ⟨fun every => every [] u rfl nonempty, fun here p q split filled => ?_⟩
  rcases List.eq_nil_or_concat p with rfl | ⟨p, c, rfl⟩
  · rw [List.nil_append] at split
    exact split ▸ here
  · intro holds
    rw [List.concat_eq_append, lastOf_append, lastOf_cons, lastOf_nil] at holds
    exact absurd holds (none c (by simp [split]))

theorem Throughout.suffix (every : Throughout A B o (u ++ s)) : Throughout A B (lastOf o u) s :=
  (throughout_append.1 every).2

theorem Throughout.switch {o' : Option Char} (every : Throughout A B o s) (here : A o' → B s) :
    Throughout A B o' s := by
  cases s with
  | nil => simpa using here
  | cons c s => exact throughout_cons.2 ⟨here, (throughout_cons.1 every).2⟩

/-- A change of spacing keeps a property of all places if it does for the places in front of it and
none inside it is against it. -/
theorem Throughout.between (every : Throughout A B o (x ++ g ++ y))
    (front : ∀ p q, x = p ++ q → q ≠ [] → A (lastOf o p) → B (q ++ g ++ y) → B (q ++ h ++ y))
    (inside : ∀ p q, h = p ++ q → A (lastOf o (x ++ p)) → B (q ++ y)) :
    Throughout A B o (x ++ h ++ y) := by
  rw [List.append_assoc, throughout_append] at every ⊢
  refine ⟨?_, ?_⟩
  · intro p q split filled holds
    simpa using front p q split filled holds (by simpa using every.1 p q split filled holds)
  · rw [throughout_append]
    refine ⟨?_, ?_⟩
    · intro p q split _ holds
      exact inside p q split (by simpa using holds)
    · refine every.2.suffix.switch fun holds => ?_
      simpa using inside h [] (by simp) (by simpa using holds)

theorem Throughout.stops_between {q : Char → Bool} (every : Throughout A (Stops q) o (x ++ g ++ y))
    (inside : ∀ p r, h = p ++ r → A (lastOf o (x ++ p)) → Stops q (r ++ y)) :
    Throughout A (Stops q) o (x ++ h ++ y) := by
  refine every.between ?_ inside
  intro p r _ filled _ stops
  cases r with
  | nil => exact absurd rfl filled
  | cons c r => simpa using stops

end SourceBundle
