import SourceBundle.Proofs.Reading

/-!
The sweep of a pattern over a text, as a relation: at each place the pattern is read, or it cannot be
read there and one character is copied. Skipping the rest of a run at once changes nothing.
-/

namespace SourceBundle.Pattern

def Fails (p : Pattern) (before : Option Char) (s : List Char) : Prop :=
  ∀ u after v, s = u ++ after → ¬ p.Reads before u after v

def Advances (p : Pattern) : Prop := ∀ before u after v, p.Reads before u after v → u ≠ []

/-- What a text becomes, read from left to right. -/
inductive Swept (p : Pattern) : Option Char → List Char → List Char → Prop
  | done {before : Option Char} : Swept p before [] []
  | step {before : Option Char} {u after v out : List Char} : p.Reads before u after v → u ≠ [] →
      Swept p (lastOf before u) after out → Swept p before (u ++ after) (v ++ out)
  | skip {before : Option Char} {c : Char} {s out : List Char} : Fails p before (c :: s) → Swept p (some c) s out →
      Swept p before (c :: s) (c :: out)

variable {p : Pattern} {before : Option Char} {s u after v out : List Char}

/-- A reading that starts inside a run of the leading class can start one character earlier. -/
theorem reads_extend {q : Char → Bool} (leads : p.leadingRun? = some q)
    (reads : p.Reads before u after v) {x : Char} {rest : List Char}
    (split : u ++ after = x :: rest) (inside : q x = true) (y : Char) (member : q y = true)
    (before' : Option Char) : u ≠ [] ∧ ∃ w, p.Reads before' (y :: u) after w := by
  induction p generalizing before u after v before' with
  | all nonempty p =>
      simp only [leadingRun?, Option.some.injEq] at leads
      subst leads
      obtain ⟨within, -, stops, rfl⟩ := reads
      cases v with
      | nil =>
          simp only [List.nil_append] at split
          simp [split, inside] at stops
      | cons z v =>
          refine ⟨by simp, y :: z :: v, ?_, by simp, stops, rfl⟩
          intro c present
          rcases List.mem_cons.1 present with rfl | present
          · exact member
          · exact within c present
  | andThen a b first _ =>
      obtain ⟨u₁, u₂, v₁, v₂, rfl, rfl, reads₁, reads₂⟩ := reads
      obtain ⟨nonempty, w, extended⟩ := first leads reads₁ (by simpa using split) before'
      refine ⟨by simp [nonempty], w ++ v₂, y :: u₁, u₂, w, v₂, rfl, rfl, extended, ?_⟩
      rw [lastOf_eq_getLast _ _ (by simp), List.getLast?_cons_of_ne_nil nonempty,
        ← lastOf_eq_getLast before _ nonempty]
      exact reads₂
  | drop a extend =>
      obtain ⟨rfl, w, reads⟩ := reads
      obtain ⟨nonempty, w, extended⟩ := extend leads reads split before'
      exact ⟨nonempty, [], rfl, w, extended⟩
  | _ => simp [leadingRun?] at leads

theorem fails_inside {q : Char → Bool} (leads : p.leadingRun? = some q) {x y : Char}
    (fails : Fails p before (y :: x :: s)) (outside : q y = true) (inside : q x = true) :
    Fails p (some y) (x :: s) := by
  intro u after v split reads
  obtain ⟨-, w, extended⟩ := reads_extend leads reads split.symm inside y outside before
  exact fails (y :: u) after w (by simp [split]) extended

theorem swept_run {q : Char → Bool} (leads : p.leadingRun? = some q) (nonempty : u ≠ [])
    (inside : ∀ c ∈ u, q c = true) (fails : Fails p before (u ++ after))
    (later : Swept p (lastOf before u) after out) : Swept p before (u ++ after) (u ++ out) := by
  induction u generalizing before with
  | nil => exact absurd rfl nonempty
  | cons y u ih =>
      cases u with
      | nil => exact .skip fails later
      | cons x u =>
          refine .skip fails (ih (by simp) (by intro c member; exact inside c (by simp_all)) ?_ later)
          exact fails_inside leads fails (inside y (by simp)) (inside x (by simp))

theorem copy_moves {c : Cursor} (filled : c.rest ≠ []) (fails : Fails p c.previous c.rest) :
    ∃ u after, c.rest = u ++ after ∧ u ≠ [] ∧ copy p.leadingRun? c = moved c.previous u after u c.written ∧
      ∀ out, Swept p (lastOf c.previous u) after out → Swept p c.previous c.rest (u ++ out) := by
  have single : ∃ u after, c.rest = u ++ after ∧ u ≠ [] ∧ c.forward = moved c.previous u after u c.written ∧
      ∀ out, Swept p (lastOf c.previous u) after out → Swept p c.previous c.rest (u ++ out) := by
    obtain ⟨x, rest, split⟩ := List.exists_cons_of_ne_nil filled
    refine ⟨[x], rest, split, by simp, by simp [Cursor.forward, split, moved], ?_⟩
    intro out later
    rw [split] at fails ⊢
    exact .skip fails later
  cases leads : p.leadingRun? with
  | none => simpa [copy] using single
  | some q =>
      simp only [copy]
      split
      · rename_i meets
        obtain ⟨u, after, taken, inside, stops⟩ := exists_run q c.rest
        have nonempty : u ≠ [] := by
          rintro rfl
          cases after with
          | nil => exact filled taken
          | cons z after => simp_all [Cursor.meets]
        refine ⟨u, after, taken, nonempty, ?_, ?_⟩
        · rw [taken]
          exact forwardWhile_append q u after c.written c.previous inside stops
        · intro out later
          rw [taken] at fails ⊢
          exact swept_run leads nonempty inside fails later
      · exact single

theorem sweep_swept (advances : p.Advances) (bound : List Char) (c : Cursor)
    (enough : c.rest.length ≤ bound.length) :
    ∃ out, Swept p c.previous c.rest out ∧
      (p.sweep p.leadingRun? bound c).text = c.written.reverse ++ out := by
  induction bound generalizing c with
  | nil =>
      have empty : c.rest = [] := by simpa using enough
      exact ⟨[], by rw [empty]; exact .done, by simp [sweep, Cursor.text, empty]⟩
  | cons b bound ih =>
      -- Each step leaves a shorter text, so the bound is enough for what is left.
      have shorter : ∀ {u after : List Char}, c.rest = u ++ after → u ≠ [] → after.length ≤ bound.length := by
        intro u after taken nonempty
        have positive := List.length_pos_iff.2 nonempty
        rw [taken, List.length_append, List.length_cons] at enough
        omega
      simp only [sweep]
      split
      · rename_i ends
        have empty : c.rest = [] := (atTextEnd_iff c).1 ends
        exact ⟨[], by rw [empty]; exact .done, by simp [Cursor.text, empty]⟩
      · rename_i more
        have filled : c.rest ≠ [] := fun empty => more ((atTextEnd_iff c).2 empty)
        split
        · rename_i d found
          obtain ⟨u, after, v, taken, reads, rfl⟩ := match_sound found
          have nonempty := advances _ _ _ _ reads
          obtain ⟨out, later, text⟩ := ih (moved c.previous u after v c.written) (shorter taken nonempty)
          refine ⟨v ++ out, ?_, by simpa [moved] using text⟩
          rw [taken]
          exact .step reads nonempty later
        · rename_i missing
          have fails : Fails p c.previous c.rest := match_none_iff.1 missing
          obtain ⟨u, after, taken, nonempty, place, build⟩ := copy_moves filled fails
          rw [place]
          obtain ⟨out, later, text⟩ := ih (moved c.previous u after u c.written) (shorter taken nonempty)
          exact ⟨u ++ out, build out later, by simpa [moved] using text⟩

/-- The rewriting of a text is its sweep. -/
theorem rewrite_swept (advances : p.Advances) (s : List Char) : Swept p none s (p.rewrite s) := by
  obtain ⟨out, swept, text⟩ := sweep_swept advances s (.ofText s) (by simp [Cursor.ofText])
  simp only [Cursor.ofText, List.reverse_nil, List.nil_append] at swept text
  rwa [rewrite, Cursor.ofText, text]

theorem Swept.eq_nil (swept : Swept p before [] out) : out = [] := by
  generalize empty : [] = s at swept
  cases swept with
  | done => rfl
  | step _ nonempty => simp [nonempty] at empty
  | skip => simp at empty

theorem Swept.cases_cons {c : Char} (swept : Swept p before (c :: s) out) :
    (∃ u after v rest, c :: s = u ++ after ∧ out = v ++ rest ∧ p.Reads before u after v ∧ u ≠ [] ∧
      Swept p (lastOf before u) after rest) ∨
    (Fails p before (c :: s) ∧ ∃ rest, out = c :: rest ∧ Swept p (some c) s rest) := by
  generalize text : c :: s = z at swept
  cases swept with
  | done => simp at text
  | step reads nonempty later => exact .inl ⟨_, _, _, _, rfl, rfl, reads, nonempty, later⟩
  | skip fails later =>
      obtain ⟨rfl, rfl⟩ := List.cons.inj text
      exact .inr ⟨fails, _, rfl, later⟩

theorem Swept.copies {c : Char} (fails : Fails p before (c :: s)) (swept : Swept p before (c :: s) out) :
    ∃ rest, out = c :: rest ∧ Swept p (some c) s rest := by
  rcases swept.cases_cons with ⟨u, after, v, rest, split, -, reads, -, -⟩ | ⟨-, copied⟩
  · exact absurd reads (fails u after v split)
  · exact copied

theorem Swept.copies_run {q : Char → Bool} (leads : p.leadingRun? = some q)
    (inside : ∀ c ∈ u, q c = true) (fails : u ≠ [] → Fails p before (u ++ s))
    (swept : Swept p before (u ++ s) out) :
    ∃ rest, out = u ++ rest ∧ Swept p (lastOf before u) s rest := by
  induction u generalizing before out with
  | nil => exact ⟨out, rfl, swept⟩
  | cons y u ih =>
      obtain ⟨rest, rfl, later⟩ := swept.copies (fails (by simp))
      have onward : u ≠ [] → Fails p (some y) (u ++ s) := by
        intro nonempty
        obtain ⟨x, u, rfl⟩ := List.exists_cons_of_ne_nil nonempty
        exact fails_inside leads (fails (by simp)) (inside y (by simp)) (inside x (by simp))
      obtain ⟨rest, rfl, last⟩ := ih (fun c member => inside c (by simp [member])) onward later
      exact ⟨rest, rfl, last⟩

theorem Swept.copies_off {q : Char → Bool} (starts : ∀ before u after v, p.Reads before u after v →
      ∀ c ∈ u.head?, q c = true) (outside : ∀ c ∈ u, q c = false) (advances : p.Advances)
    (swept : Swept p before (u ++ s) out) :
    ∃ rest, out = u ++ rest ∧ Swept p (lastOf before u) s rest := by
  induction u generalizing before out with
  | nil => exact ⟨out, rfl, swept⟩
  | cons y u ih =>
      have fails : Fails p before (y :: (u ++ s)) := by
        intro w after v split reads
        obtain ⟨x, w, rfl⟩ := List.exists_cons_of_ne_nil (advances _ _ _ _ reads)
        obtain ⟨rfl, -⟩ := List.cons.inj split
        have := starts _ _ _ _ reads y (by simp)
        simp [outside y (by simp)] at this
      obtain ⟨rest, rfl, later⟩ := swept.copies fails
      obtain ⟨rest, rfl, last⟩ := ih (fun c member => outside c (by simp [member])) later
      exact ⟨rest, rfl, last⟩

/-- Where the character before satisfies `Q`, no reading writes a text that starts within a class. -/
def Quiet (p : Pattern) (Q : Option Char → Prop) (k : Char → Bool) : Prop :=
  ∀ before u after v out, Q before → p.Reads before u after v → Swept p (lastOf before u) after out →
    Stops k (v ++ out)

theorem Swept.copied {Q : Option Char → Prop} {k : Char → Bool} (quiet : Quiet p Q k)
    (onward : ∀ c, k c = true → Q (some c)) {w z : List Char} (start : Q before)
    (inside : Within k w) (swept : Swept p before s (w ++ z)) :
    ∃ rest, s = w ++ rest ∧ Swept p (lastOf before w) rest z := by
  induction w generalizing before s with
  | nil => exact ⟨s, rfl, swept⟩
  | cons c w ih =>
      rw [within_cons] at inside
      generalize written : c :: w ++ z = out at swept
      cases swept with
      | done => simp at written
      | step reads nonempty later =>
          have stops := quiet _ _ _ _ _ start reads later
          rw [← written] at stops
          simp [inside.1] at stops
      | skip fails later =>
          obtain ⟨rfl, rfl⟩ := List.cons.inj written
          obtain ⟨rest, rfl, last⟩ := ih (onward c inside.1) inside.2 later
          exact ⟨rest, rfl, last⟩

theorem Swept.cases_append {w z : List Char} (swept : Swept p before s (w ++ z)) :
    (∃ rest, s = w ++ rest ∧ Swept p (lastOf before w) rest z) ∨
    (∃ w₁ w₂ u after v out, w = w₁ ++ w₂ ∧ w₂ ≠ [] ∧ s = w₁ ++ (u ++ after) ∧ w₂ ++ z = v ++ out ∧
      p.Reads (lastOf before w₁) u after v ∧ Swept p (lastOf (lastOf before w₁) u) after out) := by
  induction w generalizing before s with
  | nil => exact .inl ⟨s, rfl, swept⟩
  | cons c w ih =>
      generalize written : c :: w ++ z = out at swept
      cases swept with
      | done => simp at written
      | step reads nonempty later =>
          exact .inr ⟨[], c :: w, _, _, _, _, rfl, by simp, rfl, written, reads, later⟩
      | skip fails later =>
          obtain ⟨rfl, rfl⟩ := List.cons.inj written
          rcases ih later with ⟨rest, rfl, last⟩ | ⟨w₁, w₂, u, after, v, out, rfl, filled, rfl, split, reads, last⟩
          · exact .inl ⟨rest, rfl, last⟩
          · exact .inr ⟨c :: w₁, w₂, u, after, v, out, rfl, filled, rfl, split, reads, last⟩

def Writes (p : Pattern) (k : Char → Bool) : Prop :=
  ∀ before u after v, p.Reads before u after v → ∃ c w, v = c :: w ∧ k c = true

theorem Writes.quiet {k q : Char → Bool} (writes : p.Writes k) (other : ∀ c, k c = true → q c = false)
    (Q : Option Char → Prop) : Quiet p Q q := by
  intro before u after v out _ reads _
  obtain ⟨c, w, rfl, inside⟩ := writes _ _ _ _ reads
  rw [List.cons_append, stops_cons]
  exact other c inside

theorem Swept.stops {k q : Char → Bool} (writes : p.Writes k) (other : ∀ c, k c = true → q c = false)
    (swept : Swept p before s out) (stops : Stops q s) : Stops q out := by
  cases swept with
  | done => exact stops_nil _
  | step reads nonempty later => exact writes.quiet other (fun _ => True) _ _ _ _ _ trivial reads later
  | skip fails later => simpa using stops

/-- A text and its sweep are related as a text is to itself with one stretch read, if text in front does not matter. -/
theorem Swept.relates {R : List Char → List Char → Prop} (refl : ∀ s, R s s) (trans : ∀ {x y z}, R x y → R y z → R x z)
    (prepend : ∀ w {x y}, R x y → R (w ++ x) (w ++ y))
    (each : ∀ before u after v, p.Reads before u after v → R (u ++ after) (v ++ after))
    (swept : Swept p before s out) : R s out := by
  induction swept with
  | done => exact refl []
  | step reads _ _ ih => exact trans (each _ _ _ _ reads) (prepend _ ih)
  | @skip before c s out _ _ ih => exact prepend [c] ih

theorem Swept.eq_self (swept : Swept p before s out)
    (still : ∀ x u after v, s = x ++ u ++ after → p.Reads (lastOf before x) u after v → v = u) :
    out = s := by
  induction swept with
  | done => rfl
  | @step before u after v out reads nonempty later ih =>
      have here : v = u := still [] u after v (by simp) reads
      have there := ih (by
        intro x w rest z split reads
        exact still (u ++ x) w rest z (by simp [split]) (by simpa using reads))
      rw [here, there]
  | @skip before c s out fails later ih =>
      have there := ih (by
        intro x w rest z split reads
        exact still (c :: x) w rest z (by simp [split]) reads)
      rw [there]

theorem rewrite_eq_self (advances : p.Advances)
    (still : ∀ x u after v, s = x ++ u ++ after → p.Reads (lastOf none x) u after v → v = u) :
    p.rewrite s = s :=
  (rewrite_swept advances s).eq_self still

end SourceBundle.Pattern
