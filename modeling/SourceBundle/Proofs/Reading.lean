import SourceBundle.Pattern.Basic
import Mathlib.Data.List.TakeWhile

/-!
What a pattern reads, apart from the order in which its ways are tried. `Reads p before u after v`
says that `p` can read the stretch `u` between the character `before` and the text `after`, writing
`v` for it. The matcher finds a reading exactly when there is one.
-/

namespace SourceBundle

-- What holds of the characters of a text is decided along the text; Batteries would go through every character
-- there is.
section
variable {p : Char → Prop} [DecidablePred p]

instance (priority := high) decidableForallMem (u : List Char) : Decidable (∀ c ∈ u, p c) :=
  List.decidableBAll p u

instance (priority := high) decidableExistsMem (u : List Char) : Decidable (∃ c ∈ u, p c) :=
  List.decidableBEx p u

instance (priority := high) decidableForallNext (o : Option Char) : Decidable (∀ c ∈ o, p c) :=
  Option.decidableForallMem o

instance (priority := high) decidableExistsNext (o : Option Char) : Decidable (∃ c ∈ o, p c) :=
  Option.decidableExistsMem o

end

def lastOf (before : Option Char) (u : List Char) : Option Char :=
  u.foldl (fun _ c => some c) before

@[simp] theorem lastOf_nil (before : Option Char) : lastOf before [] = before := rfl

@[simp] theorem lastOf_cons (before : Option Char) (c : Char) (u : List Char) :
    lastOf before (c :: u) = lastOf (some c) u := rfl

@[simp] theorem lastOf_append (before : Option Char) (u w : List Char) :
    lastOf before (u ++ w) = lastOf (lastOf before u) w := by
  simp [lastOf, List.foldl_append]

theorem lastOf_eq_getLast (before : Option Char) (u : List Char) (nonempty : u ≠ []) :
    lastOf before u = u.getLast? := by
  obtain ⟨w, c, rfl⟩ := List.eq_nil_or_concat u |>.resolve_left nonempty
  simp [lastOf]

theorem lastOf_none (u : List Char) : lastOf none u = u.getLast? := by
  rcases List.eq_nil_or_concat u with rfl | ⟨w, c, rfl⟩ <;> simp

def Within (p : Char → Bool) (u : List Char) : Prop := ∀ c ∈ u, p c = true

instance (p : Char → Bool) (u : List Char) : Decidable (Within p u) :=
  inferInstanceAs (Decidable (∀ c ∈ u, p c = true))

@[simp] theorem within_nil (p : Char → Bool) : Within p [] := by simp [Within]

@[simp] theorem within_cons (p : Char → Bool) (c : Char) (u : List Char) :
    Within p (c :: u) ↔ p c = true ∧ Within p u := by simp [Within]

@[simp] theorem within_append (p : Char → Bool) (u w : List Char) :
    Within p (u ++ w) ↔ Within p u ∧ Within p w := by
  simp [Within, or_imp, forall_and]

theorem Within.mono {p q : Char → Bool} {u : List Char} (within : Within p u)
    (wider : ∀ c, p c = true → q c = true) : Within q u :=
  fun c member => wider c (within c member)

theorem Within.head {p : Char → Bool} {u w s : List Char} {c : Char} (within : Within p u)
    (nonempty : u ≠ []) (start : u ++ w = c :: s) : p c = true := by
  obtain ⟨d, u, rfl⟩ := List.exists_cons_of_ne_nil nonempty
  obtain ⟨rfl, -⟩ := List.cons.inj start
  exact within d (by simp)

def Stops (p : Char → Bool) (after : List Char) : Prop := ∀ c ∈ after.head?, p c = false

instance (p : Char → Bool) (after : List Char) : Decidable (Stops p after) :=
  inferInstanceAs (Decidable (∀ c ∈ after.head?, p c = false))

@[simp] theorem stops_nil (p : Char → Bool) : Stops p [] := by simp [Stops]

@[simp] theorem stops_cons (p : Char → Bool) (c : Char) (s : List Char) :
    Stops p (c :: s) ↔ p c = false := by simp [Stops]

theorem Stops.head {p : Char → Bool} {c : Char} {s after : List Char} (stops : Stops p after)
    (start : after = c :: s) : p c = false := by
  simpa [start] using stops

theorem exists_run (p : Char → Bool) (s : List Char) :
    ∃ u after, s = u ++ after ∧ Within p u ∧ Stops p after := by
  refine ⟨s.takeWhile p, s.dropWhile p, by simp, ?_, ?_⟩
  · intro c member
    exact List.mem_takeWhile_imp member
  · intro c head
    have := List.head?_dropWhile_not p s
    simp_all

theorem exists_run_end (p : Char → Bool) (s : List Char) :
    ∃ x u, s = x ++ u ∧ Within p u ∧ ∀ c ∈ x.getLast?, p c = false := by
  obtain ⟨u, x, split, within, stops⟩ : ∃ u x, s.reverse = u ++ x ∧ Within p u ∧ Stops p x :=
    ⟨s.reverse.takeWhile p, s.reverse.dropWhile p, by simp, fun c => List.mem_takeWhile_imp, by
      intro c head
      have := List.head?_dropWhile_not p s.reverse
      simp_all⟩
  refine ⟨x.reverse, u.reverse, ?_, ?_, ?_⟩
  · rw [← List.reverse_append, ← split, List.reverse_reverse]
  · intro c member
    exact within c (by simpa using member)
  · simpa [Stops] using stops

theorem run_unique {p : Char → Bool} {u u' s s' : List Char} (same : u ++ s = u' ++ s')
    (within : Within p u) (within' : Within p u') (stops : Stops p s) (stops' : Stops p s') :
    u = u' ∧ s = s' := by
  induction u generalizing u' with
  | nil =>
      cases u' with
      | nil => exact ⟨rfl, same⟩
      | cons c u' => simp [stops.head same] at within'
  | cons c u ih =>
      cases u' with
      | nil => simp [stops'.head same.symm] at within
      | cons d u' =>
          obtain ⟨rfl, rest⟩ := List.cons.inj same
          rw [within_cons] at within within'
          obtain ⟨rfl, rfl⟩ := ih rest within.2 within'.2
          exact ⟨rfl, rfl⟩

def OpensLine (before : Option Char) : Prop := ∀ c ∈ before, c = '\n'

@[simp] theorem opensLine_none : OpensLine none := by simp [OpensLine]

@[simp] theorem opensLine_some (c : Char) : OpensLine (some c) ↔ c = '\n' := by simp [OpensLine]

/-- A word character stands on exactly one side. -/
def WordEdge (before : Option Char) (after : List Char) : Prop :=
  (before.any Text.isWord) ≠ (after.head?.any Text.isWord)

namespace Pattern

abbrev Reading := Option Char → List Char → List Char → List Char → Prop

inductive Rounds (body : Reading) : Nat → Reading
  | stop {before after} : Rounds body 0 before [] after []
  | round {n before u w after v z} :
      body before u (w ++ after) v → Rounds body n (lastOf before u) w after z →
      Rounds body (n + 1) before (u ++ w) after (v ++ z)

/-- The pattern can read `u` between `before` and `after`, and writes `v` for it. -/
def Reads : Pattern → Reading
  | one p, _, u, _, v => ∃ c, p c = true ∧ u = [c] ∧ v = [c]
  | text s, _, u, _, v => u = s ∧ v = s
  | all nonempty p, _, u, after, v =>
      Within p u ∧ (nonempty = true → u ≠ []) ∧ Stops p after ∧ v = u
  | few p, _, u, _, v => Within p u ∧ v = u
  | upTo run p, _, u, after, v =>
      Within p u ∧ (∃ c rest, after = c :: rest ∧ run c = true) ∧
        (∀ c ∈ u.getLast?, run c = false) ∧ v = u
  | andThen a b, before, u, after, v =>
      ∃ u₁ u₂ v₁ v₂, u = u₁ ++ u₂ ∧ v = v₁ ++ v₂ ∧
        a.Reads before u₁ (u₂ ++ after) v₁ ∧ b.Reads (lastOf before u₁) u₂ after v₂
  | orElse a b, before, u, after, v => a.Reads before u after v ∨ b.Reads before u after v
  | repeated a, before, u, after, v =>
      ∃ n, n ≤ (u ++ after).length ∧ Rounds a.Reads n before u after v
  | lineStart, before, u, _, v => u = [] ∧ v = [] ∧ OpensLine before
  | textEnd, _, u, after, v => u = [] ∧ v = [] ∧ after = []
  | wordEdge, before, u, after, v => u = [] ∧ v = [] ∧ WordEdge before after
  | drop a, before, u, after, v => v = [] ∧ ∃ w, a.Reads before u after w
  | write s, _, u, _, v => u = [] ∧ v = s

section matching

variable {c d : Cursor} {k : Continuation}

def moved (before : Option Char) (u after v written : List Char) : Cursor :=
  ⟨lastOf before u, after, v.reverse ++ written⟩

theorem moved_append (before : Option Char) (u₁ u₂ after v₁ v₂ written : List Char) :
    moved before (u₁ ++ u₂) after (v₁ ++ v₂) written =
      moved (lastOf before u₁) u₂ after v₂ (v₁.reverse ++ written) := by
  simp [moved]

theorem forwardOver_eq (s : List Char) (before : Option Char) (rest written : List Char)
    (moves : Cursor.forwardOver s ⟨before, rest, written⟩ = some d) :
    ∃ after, rest = s ++ after ∧ d = moved before s after s written := by
  induction s generalizing before rest written with
  | nil =>
      simp only [Cursor.forwardOver, Option.some.injEq] at moves
      exact ⟨rest, rfl, by simp [moved, ← moves]⟩
  | cons x s ih =>
      cases rest with
      | nil => simp [Cursor.forwardOver] at moves
      | cons y rest =>
          simp only [Cursor.forwardOver] at moves
          split at moves
          · rename_i same
            subst same
            obtain ⟨after, rfl, rfl⟩ := ih _ _ _ moves
            exact ⟨after, rfl, by simp [moved]⟩
          · simp at moves

theorem forwardOver_append (s after written : List Char) (before : Option Char) :
    Cursor.forwardOver s ⟨before, s ++ after, written⟩ = some (moved before s after s written) := by
  induction s generalizing before written with
  | nil => simp [Cursor.forwardOver, moved]
  | cons x s ih => simp [Cursor.forwardOver, ih, moved]

theorem forwardWhile_append (p : Char → Bool) (u after written : List Char)
    (before : Option Char) (inside : Within p u) (stops : Stops p after) :
    Cursor.forwardWhile p before written (u ++ after) = moved before u after u written := by
  induction u generalizing before written with
  | nil =>
      cases after with
      | nil => simp [Cursor.forwardWhile, moved]
      | cons x after => simp_all [Cursor.forwardWhile, moved]
  | cons x u ih =>
      rw [within_cons] at inside
      simp [Cursor.forwardWhile, inside.1, ih (x :: written) (some x) inside.2, moved]

theorem takeMore_sound (p : Char → Bool) (before : Option Char) (rest written : List Char)
    (found : takeMore p k before written rest = some d) :
    ∃ u after, rest = u ++ after ∧ Within p u ∧
      k (moved before u after u written) = some d := by
  induction rest generalizing before written with
  | nil => exact ⟨[], [], rfl, by simp, found⟩
  | cons x rest ih =>
      simp only [takeMore] at found
      split at found
      · rename_i e here
        exact ⟨[], x :: rest, rfl, by simp, by simpa [moved, ← found] using here⟩
      · split at found
        · rename_i first
          obtain ⟨u, after, rfl, inside, later⟩ := ih _ _ found
          exact ⟨x :: u, after, rfl, by simp_all, by simpa [moved] using later⟩
        · simp at found

theorem takeMore_complete (p : Char → Bool) (before : Option Char) (u after written : List Char)
    (inside : Within p u) (goes : (k (moved before u after u written)).isSome) :
    (takeMore p k before written (u ++ after)).isSome := by
  induction u generalizing before written with
  | nil =>
      cases after with
      | nil => simpa [takeMore, moved] using goes
      | cons x after =>
          simp only [List.nil_append, takeMore]
          split
          · simp
          · rename_i fails
            simp [moved, fails] at goes
  | cons x u ih =>
      rw [within_cons] at inside
      simp only [List.cons_append, takeMore]
      split
      · simp
      · simp only [inside.1, if_true]
        exact ih _ _ inside.2
          (by simpa [moved] using goes)

theorem takeUpTo_sound (run p : Char → Bool) (inRun : Bool) (before : Option Char)
    (rest written : List Char) (found : takeUpTo run p k inRun before written rest = some d) :
    ∃ u c after, rest = u ++ c :: after ∧ Within p u ∧ run c = true ∧
      (u = [] → inRun = false) ∧ (∀ c ∈ u.getLast?, run c = false) ∧
      k (moved before u (c :: after) u written) = some d := by
  induction rest generalizing inRun before written with
  | nil => simp [takeUpTo] at found
  | cons x rest ih =>
      simp only [takeUpTo] at found
      split at found
      · rename_i e here
        split at here
        · rename_i starts
          simp only [Bool.and_eq_true, Bool.not_eq_true'] at starts
          exact ⟨[], x, rest, rfl, by simp, starts.1, fun _ => starts.2, by simp,
            by simpa [moved, ← found] using here⟩
        · simp at here
      · split at found
        · rename_i first
          obtain ⟨u, c, after, rfl, inside, starts, fresh, ends, later⟩ := ih _ _ _ found
          refine ⟨x :: u, c, after, rfl, by simp_all, starts, by simp, ?_,
            by simpa [moved] using later⟩
          cases u with
          | nil => simpa using fresh rfl
          | cons y u => simpa [List.getLast?_cons_cons] using ends
        · simp at found

theorem takeUpTo_complete (run p : Char → Bool) (inRun : Bool) (before : Option Char)
    (u after written : List Char) (c : Char) (inside : Within p u) (starts : run c = true)
    (fresh : u = [] → inRun = false) (ends : ∀ c ∈ u.getLast?, run c = false)
    (goes : (k (moved before u (c :: after) u written)).isSome) :
    (takeUpTo run p k inRun before written (u ++ c :: after)).isSome := by
  induction u generalizing inRun before written with
  | nil =>
      simp only [List.nil_append, takeUpTo, starts, fresh rfl, Bool.not_false, Bool.and_self,
        if_true]
      split
      · simp
      · rename_i fails
        simp [moved, fails] at goes
  | cons x u ih =>
      rw [within_cons] at inside
      simp only [List.cons_append, takeUpTo]
      split
      · simp
      · simp only [inside.1, if_true]
        refine ih _ _ _ inside.2 ?_ ?_
          (by simpa [moved] using goes)
        · rintro rfl
          exact ends x (by simp)
        · cases u with
          | nil => simp
          | cons y u => simpa [List.getLast?_cons_cons] using ends

theorem atLineStart_iff (c : Cursor) : c.atLineStart = true ↔ OpensLine c.previous := by
  cases before : c.previous <;> simp [Cursor.atLineStart, before]

theorem atTextEnd_iff (c : Cursor) : c.atTextEnd = true ↔ c.rest = [] := by
  simp [Cursor.atTextEnd, List.isEmpty_iff]

theorem atWordEdge_iff (c : Cursor) : c.atWordEdge = true ↔ WordEdge c.previous c.rest := by
  cases rest : c.rest <;> simp [Cursor.atWordEdge, WordEdge, Cursor.meets, rest]

theorem rounds_sound (a : Pattern)
    (sound : ∀ (c : Cursor) (k : Continuation) (d : Cursor), a.read c k = some d →
      ∃ u after v, c.rest = u ++ after ∧ a.Reads c.previous u after v ∧
        k (moved c.previous u after v c.written) = some d)
    (bound : List Char) (c : Cursor) (found : rounds (fun d j => a.read d j) k bound c = some d) :
    ∃ n u after v, n ≤ bound.length ∧ c.rest = u ++ after ∧
      Rounds a.Reads n c.previous u after v ∧
      k (moved c.previous u after v c.written) = some d := by
  induction bound generalizing c d with
  | nil => exact ⟨0, [], c.rest, [], by simp, rfl, .stop, by simpa [moved, rounds] using found⟩
  | cons x bound ih =>
      simp only [rounds] at found
      split at found
      · rename_i e here
        rw [Option.some.injEq] at found
        subst found
        obtain ⟨u, after, v, split, first, later⟩ := sound _ _ _ here
        obtain ⟨n, w, after, z, few, split', others, last⟩ := ih _ later
        simp only [moved] at split' others last
        subst split'
        refine ⟨n + 1, u ++ w, after, v ++ z, by simpa using few, by simp [split],
          .round first others, ?_⟩
        rw [moved_append]
        simpa [moved] using last
      · exact ⟨0, [], c.rest, [], by simp, rfl, .stop, by simpa [moved] using found⟩

/-- The matcher goes on from a place that a reading leads to. -/
theorem read_sound (p : Pattern) (c : Cursor) (k : Continuation) (d : Cursor)
    (found : p.read c k = some d) :
    ∃ u after v, c.rest = u ++ after ∧ p.Reads c.previous u after v ∧
      k (moved c.previous u after v c.written) = some d := by
  induction p generalizing c k d with
  | one p =>
      simp only [read] at found
      split at found
      · rename_i meets
        cases rest : c.rest with
        | nil => simp [Cursor.meets, rest] at meets
        | cons x rest' =>
            refine ⟨[x], rest', [x], rfl, ⟨x, by simpa [Cursor.meets, rest] using meets, rfl, rfl⟩, ?_⟩
            simpa [Cursor.forward, rest, moved] using found
      · simp at found
  | text s =>
      simp only [read] at found
      split at found
      · rename_i e moves
        obtain ⟨after, split, rfl⟩ := forwardOver_eq s c.previous c.rest c.written moves
        exact ⟨s, after, s, split, ⟨rfl, rfl⟩, found⟩
      · simp at found
  | all nonempty p =>
      obtain ⟨u, after, split, inside, stops⟩ := exists_run p c.rest
      simp only [read] at found
      split at found
      · simp at found
      · rename_i meets
        rw [split, forwardWhile_append p u after c.written c.previous inside stops] at found
        refine ⟨u, after, u, split, ⟨inside, ?_, stops, rfl⟩, found⟩
        rintro rfl rfl
        cases after with
        | nil => simp [Cursor.meets, split] at meets
        | cons x after => simp_all [Cursor.meets]
  | few p =>
      obtain ⟨u, after, split, inside, later⟩ := takeMore_sound p _ _ _ found
      exact ⟨u, after, u, split, ⟨inside, rfl⟩, later⟩
  | upTo run p =>
      obtain ⟨u, x, after, split, inside, starts, -, ends, later⟩ :=
        takeUpTo_sound run p false _ _ _ found
      exact ⟨u, x :: after, u, split, ⟨inside, ⟨x, after, rfl, starts⟩, ends, rfl⟩, later⟩
  | andThen a b first second =>
      obtain ⟨u₁, after, v₁, split, reads₁, found⟩ := first _ _ _ found
      obtain ⟨u₂, after, v₂, split', reads₂, later⟩ := second _ _ _ found
      simp only [moved] at split' reads₂ later
      subst split'
      refine ⟨u₁ ++ u₂, after, v₁ ++ v₂, by simp [split], ⟨u₁, u₂, v₁, v₂, rfl, rfl, reads₁, reads₂⟩, ?_⟩
      rw [moved_append]
      simpa [moved] using later
  | orElse a b first second =>
      simp only [read] at found
      split at found
      · rename_i e here
        obtain ⟨u, after, v, split, reads, later⟩ := first _ _ _ here
        exact ⟨u, after, v, split, .inl reads, by rw [later, found]⟩
      · obtain ⟨u, after, v, split, reads, later⟩ := second _ _ _ found
        exact ⟨u, after, v, split, .inr reads, later⟩
  | repeated a sound =>
      obtain ⟨n, u, after, v, few, split, rounds, later⟩ := rounds_sound a (fun c k d => sound c k d) c.rest c found
      exact ⟨u, after, v, split, ⟨n, by rw [← split]; exact few, rounds⟩, later⟩
  | lineStart =>
      simp only [read] at found
      split at found
      · rename_i opens
        exact ⟨[], c.rest, [], rfl, ⟨rfl, rfl, (atLineStart_iff c).1 opens⟩,
          by simpa [moved] using found⟩
      · simp at found
  | textEnd =>
      simp only [read] at found
      split at found
      · rename_i ends
        exact ⟨[], c.rest, [], rfl, ⟨rfl, rfl, (atTextEnd_iff c).1 ends⟩,
          by simpa [moved] using found⟩
      · simp at found
  | wordEdge =>
      simp only [read] at found
      split at found
      · rename_i edge
        exact ⟨[], c.rest, [], rfl, ⟨rfl, rfl, (atWordEdge_iff c).1 edge⟩,
          by simpa [moved] using found⟩
      · simp at found
  | drop a sound =>
      obtain ⟨u, after, v, split, reads, later⟩ := sound _ _ _ found
      exact ⟨u, after, [], split, ⟨rfl, v, reads⟩, by simpa [moved] using later⟩
  | write s => exact ⟨[], c.rest, s, rfl, ⟨rfl, rfl⟩, by simpa [moved, read] using found⟩

theorem rounds_complete (a : Pattern)
    (complete : ∀ (before : Option Char) (u after v written : List Char) (k : Continuation),
      a.Reads before u after v → (k (moved before u after v written)).isSome →
      (a.read ⟨before, u ++ after, written⟩ k).isSome)
    {n : Nat} {before : Option Char} {u after v : List Char} (written bound : List Char)
    (reads : Rounds a.Reads n before u after v) (few : n ≤ bound.length)
    (goes : (k (moved before u after v written)).isSome) :
    (rounds (fun d j => a.read d j) k bound ⟨before, u ++ after, written⟩).isSome := by
  induction reads generalizing written bound with
  | stop =>
      cases bound with
      | nil => simpa [rounds, moved] using goes
      | cons x bound =>
          simp only [rounds]
          split
          · simp
          · simpa [moved] using goes
  | @round n before u w after v z first others ih =>
      cases bound with
      | nil => simp at few
      | cons x bound =>
          have later := ih (v.reverse ++ written) bound (by simpa using few)
            (by rwa [moved_append] at goes)
          have here := complete before u (w ++ after) v written
            (rounds (fun d j => a.read d j) k bound) first (by simpa [moved] using later)
          rw [← List.append_assoc] at here
          simp only [rounds]
          split
          · simp
          · rename_i fails
            rw [fails] at here
            simp at here

/-- Where there is a reading after which the matcher can go on, it goes on from some reading. -/
theorem read_complete (p : Pattern) (before : Option Char) (u after v written : List Char)
    (k : Continuation) (reads : p.Reads before u after v)
    (goes : (k (moved before u after v written)).isSome) :
    (p.read ⟨before, u ++ after, written⟩ k).isSome := by
  induction p generalizing before u after v written k with
  | one p =>
      obtain ⟨x, inside, rfl, rfl⟩ := reads
      simpa [read, Cursor.meets, inside, Cursor.forward, moved] using goes
  | text s =>
      obtain ⟨rfl, rfl⟩ := reads
      simpa [read, forwardOver_append] using goes
  | all nonempty p =>
      obtain ⟨inside, filled, stops, rfl⟩ := reads
      simp only [read]
      split
      · rename_i fails
        simp only [Bool.and_eq_true, Bool.not_eq_true'] at fails
        cases v with
        | nil => exact absurd rfl (filled fails.1)
        | cons x v => simp [Cursor.meets, (within_cons p x v).1 inside] at fails
      · rwa [forwardWhile_append p v after written before inside stops]
  | few p =>
      obtain ⟨inside, rfl⟩ := reads
      exact takeMore_complete p before v after written inside goes
  | upTo run p =>
      obtain ⟨inside, ⟨x, rest, rfl, starts⟩, ends, rfl⟩ := reads
      exact takeUpTo_complete run p false before v rest written x inside starts (fun _ => rfl) ends goes
  | andThen a b first second =>
      obtain ⟨u₁, u₂, v₁, v₂, rfl, rfl, reads₁, reads₂⟩ := reads
      rw [moved_append] at goes
      have later := second _ _ _ _ _ _ reads₂ goes
      rw [List.append_assoc]
      exact first _ _ _ _ _ _ reads₁ later
  | orElse a b first second =>
      simp only [read]
      split
      · simp
      · rename_i fails
        rcases reads with reads | reads
        · have here := first _ _ _ _ _ _ reads goes
          rw [fails] at here
          simp at here
        · exact second _ _ _ _ _ _ reads goes
  | repeated a complete =>
      obtain ⟨n, few, rounds⟩ := reads
      exact rounds_complete a complete written (u ++ after) rounds few goes
  | lineStart =>
      obtain ⟨rfl, rfl, opens⟩ := reads
      have opens := (atLineStart_iff ⟨before, after, written⟩).2 opens
      simpa [read, opens, moved] using goes
  | textEnd =>
      obtain ⟨rfl, rfl, rfl⟩ := reads
      simpa [read, Cursor.atTextEnd, moved] using goes
  | wordEdge =>
      obtain ⟨rfl, rfl, edge⟩ := reads
      have edge := (atWordEdge_iff ⟨before, after, written⟩).2 edge
      simpa [read, edge, moved] using goes
  | drop a complete =>
      obtain ⟨rfl, w, reads⟩ := reads
      exact complete _ _ _ _ _ _ reads (by simpa [moved] using goes)
  | write s =>
      obtain ⟨rfl, rfl⟩ := reads
      simpa [read, moved] using goes

end matching

theorem match_sound {p : Pattern} {c d : Cursor} (found : p.match? c = some d) :
    ∃ u after v, c.rest = u ++ after ∧ p.Reads c.previous u after v ∧
      d = moved c.previous u after v c.written := by
  obtain ⟨u, after, v, split, reads, last⟩ := read_sound p c some d found
  exact ⟨u, after, v, split, reads, by simpa using last.symm⟩

theorem match_none_iff {p : Pattern} {c : Cursor} :
    p.match? c = none ↔ ∀ u after v, c.rest = u ++ after → ¬ p.Reads c.previous u after v := by
  constructor
  · intro fails u after v split reads
    have here := read_complete p c.previous u after v c.written some reads (by simp)
    rw [← split] at here
    change (p.match? c).isSome = true at here
    simp [fails] at here
  · intro never
    cases found : p.match? c with
    | none => rfl
    | some d =>
        obtain ⟨u, after, v, split, reads, -⟩ := match_sound found
        exact absurd reads (never u after v split)

theorem reads_append (a b : Pattern) (before : Option Char) (u after v : List Char) :
    (a ++ b).Reads before u after v ↔
      ∃ u₁ u₂ v₁ v₂, u = u₁ ++ u₂ ∧ v = v₁ ++ v₂ ∧
        a.Reads before u₁ (u₂ ++ after) v₁ ∧ b.Reads (lastOf before u₁) u₂ after v₂ := by
  change (append a b).Reads before u after v ↔ _
  induction a generalizing before u after v with
  | andThen a c first second =>
      simp only [append, Reads, second]
      constructor
      · rintro ⟨u₁, _, v₁, _, rfl, rfl, reads₁, u₂, u₃, v₂, v₃, rfl, rfl, reads₂, reads₃⟩
        exact ⟨u₁ ++ u₂, u₃, v₁ ++ v₂, v₃, by simp, by simp,
          ⟨u₁, u₂, v₁, v₂, rfl, rfl, by simpa using reads₁, reads₂⟩, by simpa using reads₃⟩
      · rintro ⟨_, u₃, _, v₃, rfl, rfl, ⟨u₁, u₂, v₁, v₂, rfl, rfl, reads₁, reads₂⟩, reads₃⟩
        exact ⟨u₁, u₂ ++ u₃, v₁, v₂ ++ v₃, by simp, by simp, by simpa using reads₁,
          u₂, u₃, v₂, v₃, rfl, rfl, reads₂, by simpa using reads₃⟩
  | _ => rfl

theorem reads_anyOf {choices : List Pattern} {before : Option Char} {u after v : List Char}
    (filled : choices ≠ []) :
    (anyOf choices).Reads before u after v ↔ ∃ p ∈ choices, p.Reads before u after v := by
  induction choices with
  | nil => exact absurd rfl filled
  | cons first others ih =>
      cases others with
      | nil => simp [anyOf]
      | cons second others =>
          have rest := ih (by simp)
          simp only [anyOf, Reads, List.mem_cons, exists_eq_or_imp] at rest ⊢
          rw [rest]

theorem reads_anyText {choices : List String} {before : Option Char} {u after v : List Char}
    (filled : choices ≠ []) :
    (anyText choices).Reads before u after v ↔ ∃ s ∈ choices, u = s.toList ∧ v = s.toList := by
  rw [anyText, reads_anyOf (by simpa using filled)]
  simp [Reads]

theorem reads_drop {a : Pattern} {before : Option Char} {u after v : List Char} :
    (drop a).Reads before u after v ↔ v = [] ∧ ∃ w, a.Reads before u after w := .rfl

end Pattern

end SourceBundle
