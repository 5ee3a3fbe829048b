import SourceBundle.Proofs.Comments
import SourceBundle.Proofs.Pieces

/-!
A place in a text: two stretches of ink with spacing between them, behind a text of which the ink is known. Moves of
blanks keep it where none of them is about the spacing of the place, and a sweep keeps it where it reads nothing that
overlaps it.
-/

namespace SourceBundle

open Text

def isInk (c : Char) : Bool := !isSpacing c

theorem isBlank_of_isInk {c : Char} (inked : isInk c = true) : isBlank c = false := by
  simp only [isInk, isSpacing, Bool.not_or, Bool.and_eq_true, Bool.not_eq_true'] at inked
  exact inked.1

theorem within_true (u : List Char) : Within (fun _ => true) u := fun _ _ => rfl

/-- The stretches `w` and `z` stand in the text with spacing between them of which `P` holds; the ink in front of them
is `p`, and `Q` holds of the text behind them. -/
def Stands (w z : List Char) (P Q : List Char → Prop) (p s : List Char) : Prop :=
  ∃ x k y, s = x ++ (w ++ (k ++ (z ++ y))) ∧ ink x = p ∧ P k ∧ Q y

/-- Blanks between `x` and `y` are changed: they go beside one of the `marks`, they are other blanks behind a text of a
kind or in front of `else`, or with a line break among them they are a semicolon in front of a text that `starts` so. -/
inductive Move (marks : List String) (follows starts : List Char → Prop) :
    List Char → List Char → List Char → List Char → Prop
  | close {x g y : List Char} (blank : Within isBlank g) (nonempty : g ≠ []) (beside : Beside marks x y) :
      Move marks follows starts x g [] y
  | space {x g h y : List Char} (blank : Within isBlank g) (nonempty : g ≠ []) (blank' : Within isBlank h)
      (kept : h ≠ []) (place : follows x ∨ "else".toList <+: y) : Move marks follows starts x g h y
  | separate {x g y : List Char} (blank : Within isBlank g) (broken : '\n' ∈ g) (next : starts y) :
      Move marks follows starts x g [';'] y

inductive Shift (marks : List String) (follows starts : List Char → Prop) : List Char → List Char → Prop
  | between {x g h y : List Char} (move : Move marks follows starts x g h y) :
      Shift marks follows starts (x ++ g ++ y) (x ++ h ++ y)

abbrev Shifted (marks : List String) (follows starts : List Char → Prop) : List Char → List Char → Prop :=
  Relation.ReflTransGen (Shift marks follows starts)

/-- The kind of text is told by its end. -/
def AtEnd (follows : List Char → Prop) : Prop := ∀ w x, follows x → follows (w ++ x)

variable {marks : List String} {follows starts P P' Q Q' : List Char → Prop} {joins : Char → Bool}
  {w z p x g h u u' y s s' : List Char}

theorem cut_ink (spacing : Within isSpacing u) (inked : Within isInk w) (same : x ++ (u ++ y) = w ++ s) :
    (∃ a, x = w ++ a ∧ s = a ++ (u ++ y)) ∨ (u = [] ∧ ∃ t, t ≠ [] ∧ w = x ++ t ∧ y = t ++ s) := by
  rcases List.append_eq_append_iff.1 same with ⟨t, rfl, rest⟩ | ⟨a, rfl, rest⟩
  · cases t with
    | nil => exact .inl ⟨[], by simp, rest.symm⟩
    | cons c t =>
        right
        rw [within_append, within_cons, isInk] at inked
        cases u with
        | nil => exact ⟨rfl, c :: t, by simp, rfl, rest⟩
        | cons d u =>
            obtain ⟨rfl, -⟩ := List.cons.inj rest
            simp [spacing d (by simp)] at inked
  · exact .inl ⟨a, rfl, rest⟩

theorem cut_spacing {k : List Char} (spacing : Within isSpacing u) (inked : Within isInk z) (filled : z ≠ [])
    (same : x ++ (u ++ y) = k ++ (z ++ s)) :
    (∃ b, k = x ++ u ++ b ∧ y = b ++ (z ++ s)) ∨ (∃ a, x = k ++ a ∧ a ++ (u ++ y) = z ++ s) := by
  rcases List.append_eq_append_iff.1 same with ⟨t, rfl, front⟩ | ⟨a, rfl, front⟩
  · left
    rcases List.append_eq_append_iff.1 front with ⟨b, rfl, rest⟩ | ⟨r, rfl, rest⟩
    · exact ⟨b, by simp, rest⟩
    · cases r with
      | nil => exact ⟨[], by simp, by simpa using rest.symm⟩
      | cons c r =>
          obtain ⟨d, z, rfl⟩ := List.exists_cons_of_ne_nil filled
          obtain ⟨rfl, -⟩ := List.cons.inj rest
          rw [within_cons, isInk, spacing d (by simp)] at inked
          exact absurd inked.1 (by decide)
  · exact .inr ⟨a, rfl, front.symm⟩

theorem inside_stretch {a t r v : List Char} (front : a ≠ []) (back : t ≠ []) :
    ∃ c d, c ∈ a ++ t ∧ d ∈ a ++ t ∧ (v ++ a).getLast? = some c ∧ (t ++ r).head? = some d := by
  obtain ⟨a, c, rfl⟩ := (List.eq_nil_or_concat a).resolve_left front
  obtain ⟨d, t, rfl⟩ := List.exists_cons_of_ne_nil back
  exact ⟨c, d, by simp, by simp, by simp, by simp⟩

/-- Spacing lies in front of a place, in its gap, behind it, or it is empty and inside one of the two stretches. -/
theorem place_cases {k v : List Char} (spacing : Within isSpacing u) (inked : Within isInk w) (inked' : Within isInk z)
    (filled : w ≠ []) (filled' : z ≠ []) (same : x ++ (u ++ y) = v ++ (w ++ (k ++ (z ++ s)))) :
    (∃ r, v = x ++ u ++ r ∧ y = r ++ (w ++ (k ++ (z ++ s)))) ∨
      (∃ a b, k = a ++ u ++ b ∧ x = v ++ (w ++ a) ∧ y = b ++ (z ++ s)) ∨
      (∃ r, s = r ++ u ++ y ∧ x = v ++ (w ++ (k ++ (z ++ r)))) ∨
      (u = [] ∧ ∃ c d, (c ∈ w ∧ d ∈ w ∨ c ∈ z ∧ d ∈ z) ∧ x.getLast? = some c ∧ y.head? = some d) := by
  rcases cut_spacing spacing inked filled same with front | ⟨a, rfl, first⟩
  · exact .inl front
  rcases cut_ink spacing inked first with ⟨a, rfl, second⟩ | ⟨rfl, t, behind, rfl, rfl⟩
  · rcases cut_spacing spacing inked' filled' second.symm with ⟨b, rfl, rfl⟩ | ⟨a, rfl, third⟩
    · exact .inr (.inl ⟨_, b, rfl, rfl, rfl⟩)
    rcases cut_ink spacing inked' third with ⟨a, rfl, rfl⟩ | ⟨rfl, t, behind, rfl, rfl⟩
    · exact .inr (.inr (.inl ⟨a, by simp, rfl⟩))
    · by_cases front : a = []
      · subst front
        exact .inr (.inl ⟨k, [], by simp, by simp, rfl⟩)
      · obtain ⟨c, d, inside, inside', last, first⟩ := inside_stretch (r := s) (v := v ++ (w ++ k)) front behind
        exact .inr (.inr (.inr ⟨rfl, c, d, .inr ⟨inside, inside'⟩, by simpa using last, first⟩))
  · by_cases front : a = []
    · subst front
      exact .inl ⟨[], by simp, rfl⟩
    · obtain ⟨c, d, inside, inside', last, first⟩ := inside_stretch (r := k ++ (z ++ s)) (v := v) front behind
      exact .inr (.inr (.inr ⟨rfl, c, d, .inl ⟨inside, inside'⟩, last, first⟩))

theorem Move.spacing (move : Move marks follows starts x g h y) : Within isSpacing g := by
  cases move with
  | close blank | space blank | separate blank => exact blank.mono fun _ => isSpacing_of_isBlank

theorem Move.spacing' (move : Move marks follows starts x g h y) : Within isSpacing h := by
  cases move with
  | close => simp
  | space _ _ blank => exact blank.mono fun _ => isSpacing_of_isBlank
  | separate => simp [isSpacing]

theorem Move.nonempty (move : Move marks follows starts x g h y) : g ≠ [] := by
  cases move with
  | close _ nonempty | space _ nonempty => exact nonempty
  | separate _ broken => exact List.ne_nil_of_mem broken

theorem Move.blank (move : Move marks follows starts x g h y) : Within isBlank g := by
  cases move with
  | close blank | space blank | separate blank => exact blank

theorem Move.prepend (ends : AtEnd follows) (move : Move marks follows starts x g h y) (v : List Char) :
    Move marks follows starts (v ++ x) g h y := by
  cases move with
  | close blank nonempty beside => exact .close blank nonempty (beside.prepend v)
  | space blank nonempty blank' kept place =>
      exact .space blank nonempty blank' kept (place.imp_left (ends v x))
  | separate blank broken next => exact .separate blank broken next

theorem Move.shifted (move : Move marks follows starts x g h y) :
    Shifted marks follows starts (x ++ g ++ y) (x ++ h ++ y) :=
  .single (.between move)

theorem Shifted.prepend (ends : AtEnd follows) (shifted : Shifted marks follows starts s s') (v : List Char) :
    Shifted marks follows starts (v ++ s) (v ++ s') := by
  induction shifted with
  | refl => exact .refl
  | tail _ step ih =>
      cases step with
      | between move =>
          refine ih.tail ?_
          simpa using Shift.between (move.prepend ends v)

theorem Stands.mono (gap : ∀ k, P k → P' k) (back : ∀ y, Q y → Q' y) (here : Stands w z P Q p s) :
    Stands w z P' Q' p s := by
  obtain ⟨x, k, y, rfl, same, holds, behind⟩ := here
  exact ⟨x, k, y, rfl, same, gap k holds, back y behind⟩

theorem Stands.same_gap (inked : Within isInk w) (inked' : Within isInk z) (filled : w ≠ []) (filled' : z ≠ [])
    (spacing : ∀ k, P k → Within isSpacing k) (spacing' : ∀ k, P' k → Within isSpacing k) (here : Stands w z P Q p s)
    (there : Stands w z P' Q' p s) : ∃ k, P k ∧ P' k := by
  -- Where less spacing stood in front of the stretch, it would start with spacing.
  have front : ∀ {x t r r' : List Char}, ink (x ++ t) = ink x → w ++ r = t ++ (w ++ r') → t = [] := by
    intro x t r r' same split
    rw [ink_append, List.append_right_eq_self, ink_eq_nil] at same
    cases t with
    | nil => rfl
    | cons c t =>
        obtain ⟨d, w, rfl⟩ := List.exists_cons_of_ne_nil filled
        obtain ⟨rfl, -⟩ := List.cons.inj split
        rw [within_cons, isInk, same d (by simp)] at inked
        exact absurd inked.1 (by decide)
  have stops : ∀ r, Stops isSpacing (z ++ r) := by
    obtain ⟨d, z, rfl⟩ := List.exists_cons_of_ne_nil filled'
    intro r
    rw [List.cons_append, stops_cons]
    simpa [isInk] using inked' d (by simp)
  obtain ⟨x, k, y, rfl, rfl, holds, -⟩ := here
  obtain ⟨x', k', y', same, ink', holds', -⟩ := there
  have rest : k ++ (z ++ y) = k' ++ (z ++ y') := by
    rcases List.append_eq_append_iff.1 same with ⟨t, rfl, split⟩ | ⟨t, rfl, split⟩
    · obtain rfl := front ink' split
      simpa using split
    · obtain rfl := front ink'.symm split
      simpa using split.symm
  obtain ⟨rfl, -⟩ := run_unique rest (spacing k holds) (spacing' k' holds') (stops y) (stops y')
  exact ⟨k, holds, holds'⟩

theorem Stands.between (spacing : Within isSpacing u) (spacing' : Within isSpacing u') (inked : Within isInk w)
    (inked' : Within isInk z) (filled : w ≠ []) (filled' : z ≠ []) (within : Within joins w) (within' : Within joins z)
    (seam : u = [] → Seam joins x y)
    (gap : ∀ v a b r, x = v ++ (w ++ a) → y = b ++ (z ++ r) → Q r → P (a ++ u ++ b) → P (a ++ u' ++ b))
    (back : ∀ v a, x = v ++ (z ++ a) → Q (a ++ u ++ y) → Q (a ++ u' ++ y))
    (here : Stands w z P Q p (x ++ u ++ y)) : Stands w z P Q p (x ++ u' ++ y) := by
  obtain ⟨v, k, s, same, rfl, holds, behind⟩ := here
  rw [List.append_assoc] at same
  rcases place_cases spacing inked inked' filled filled' same with
    ⟨r, rfl, rfl⟩ | ⟨a, b, rfl, rfl, rfl⟩ | ⟨r, rfl, rfl⟩ | ⟨rfl, c, d, both, last, first⟩
  · refine ⟨x ++ u' ++ r, k, s, by simp, ?_, holds, behind⟩
    simp [ink_eq_nil.2 spacing, ink_eq_nil.2 spacing']
  · exact ⟨v, a ++ u' ++ b, s, by simp, rfl, gap v a b s rfl rfl behind holds, behind⟩
  · exact ⟨v, k, r ++ u' ++ y, by simp, rfl, holds, back (v ++ (w ++ k)) r (by simp) behind⟩
  · have apart := seam rfl c (by simp [last]) d (by simp [first])
    rcases both with ⟨inside, inside'⟩ | ⟨inside, inside'⟩
    · simp [within c inside, within d inside'] at apart
    · simp [within' c inside, within' d inside'] at apart

section place

variable (inked : Within isInk w) (inked' : Within isInk z) (filled : w ≠ []) (filled' : z ≠ [])
include inked inked' filled filled'

theorem Shifted.stands
    (gap : ∀ v a g h b r, Q r → P (a ++ g ++ b) → Move marks follows starts (v ++ (w ++ a)) g h (b ++ (z ++ r)) →
      P (a ++ h ++ b))
    (back : ∀ v a g h y, Move marks follows starts (v ++ (z ++ a)) g h y → Q (a ++ g ++ y) → Q (a ++ h ++ y))
    (shifted : Shifted marks follows starts s s') (here : Stands w z P Q p s) : Stands w z P Q p s' := by
  induction shifted with
  | refl => exact here
  | tail _ step ih =>
      obtain ⟨move⟩ := step
      refine Stands.between move.spacing move.spacing' inked inked' filled filled' (within_true w) (within_true z)
        (fun empty => absurd empty move.nonempty) ?_ ?_ ih
      · rintro v a b r rfl rfl behind holds
        exact gap v a _ _ b r behind holds move
      · rintro v a rfl
        exact back v a _ _ _ move

theorem Shifted.stands_of (outside : ∀ mark ∈ marks, Outside joins mark.toList) (within : Within joins w)
    (within' : Within joins z)
    (gap : ∀ v a g h b r, Q r → P (a ++ h ++ b) → Move marks follows starts (v ++ (w ++ a)) g h (b ++ (z ++ r)) →
      P (a ++ g ++ b))
    (back : ∀ v a g h y, Move marks follows starts (v ++ (z ++ a)) g h y → Q (a ++ h ++ y) → Q (a ++ g ++ y))
    (shifted : Shifted marks follows starts s s') (there : Stands w z P Q p s') : Stands w z P Q p s := by
  induction shifted with
  | refl => exact there
  | tail _ step ih =>
      obtain ⟨move⟩ := step
      refine ih (Stands.between move.spacing' move.spacing inked inked' filled filled' within within' ?_ ?_ ?_ there)
      · rintro rfl
        cases move with
        | close _ _ beside => exact seam_of_beside outside beside
        | space _ _ _ kept => exact absurd rfl kept
      · rintro v a b r rfl rfl behind holds
        exact gap v a _ _ b r behind holds move
      · rintro v a rfl
        exact back v a _ _ _ move

end place

namespace Pattern

variable {m : Pattern} {before : Option Char} {out : List Char}

def Shifts (marks : List String) (follows starts : List Char → Prop) (m : Pattern) : Prop :=
  ∀ before u after v, m.Reads before u after v → Shifted marks follows starts (u ++ after) (v ++ after)

theorem Swept.shifted (ends : AtEnd follows) (shifts : m.Shifts marks follows starts)
    (swept : Swept m before s out) : Shifted marks follows starts s out :=
  swept.relates (fun _ => .refl) (fun first => first.trans) (fun w _ _ shifted => shifted.prepend ends w) shifts

theorem Swept.reaches (kept : ∀ b u after v, m.Reads b u after v → ink v = ink u)
    (apart : ∀ b u r after v, m.Reads b (u ++ r) after v → r ≠ [] → r ++ after ≠ s)
    (swept : Swept m before (x ++ s) out) :
    ∃ x' out', out = x' ++ out' ∧ ink x' = ink x ∧ Swept m (lastOf before x) s out' := by
  generalize text : x ++ s = t at swept
  induction swept generalizing x with
  | done =>
      obtain ⟨rfl, rfl⟩ := List.append_eq_nil_iff.1 text
      exact ⟨[], [], rfl, rfl, .done⟩
  | @step before u after v out reads nonempty later ih =>
      rcases List.append_eq_append_iff.1 text with ⟨r, rfl, rest⟩ | ⟨r, rfl, rest⟩
      · by_cases empty : r = []
        · subst empty
          obtain ⟨x', out', rfl, same, onward⟩ := ih (x := []) (by simpa using rest)
          refine ⟨v ++ x', out', by simp, ?_, by simpa using onward⟩
          rw [ink_append, same, kept _ _ _ _ reads]
          simp
        · exact absurd rest.symm (apart _ _ _ _ _ reads empty)
      · obtain ⟨x', out', rfl, same, onward⟩ := ih rest.symm
        refine ⟨v ++ x', out', by simp, ?_, by simpa using onward⟩
        rw [ink_append, ink_append, same, kept _ _ _ _ reads]
  | @skip before c t out fails later ih =>
      cases x with
      | nil =>
          obtain rfl : s = c :: t := text
          exact ⟨[], c :: out, rfl, rfl, .skip fails later⟩
      | cons d x =>
          obtain ⟨rfl, rest⟩ := List.cons.inj text
          obtain ⟨x', out', rfl, same, onward⟩ := ih rest
          have split : ∀ t : List Char, d :: t = [d] ++ t := fun _ => rfl
          refine ⟨d :: x', out', rfl, ?_, onward⟩
          rw [split x', split x, ink_append, ink_append, same]

theorem apart_of_head {q : Char → Bool} (reads : ∀ b u after v, m.Reads b u after v → Within q u)
    (head : ∃ c ∈ w.head?, q c = false) (b : Option Char) (u r after v : List Char) (here : m.Reads b (u ++ r) after v)
    (nonempty : r ≠ []) : r ++ after ≠ w ++ y := by
  intro same
  obtain ⟨c, first, other⟩ := head
  obtain ⟨w, rfl⟩ := List.head?_eq_some_iff.1 first
  obtain ⟨d, r, rfl⟩ := List.exists_cons_of_ne_nil nonempty
  obtain ⟨rfl, -⟩ := List.cons.inj same
  have inside := reads _ _ _ _ here
  simp only [within_append, within_cons] at inside
  simp [inside.2.1] at other

theorem Swept.copies_all (fails : ∀ a b, u = a ++ b → b ≠ [] → Fails m (lastOf before a) (b ++ s))
    (swept : Swept m before (u ++ s) out) : ∃ rest, out = u ++ rest ∧ Swept m (lastOf before u) s rest := by
  induction u generalizing before out with
  | nil => exact ⟨out, rfl, swept⟩
  | cons c u ih =>
      obtain ⟨rest, rfl, later⟩ := swept.copies (fails [] (c :: u) rfl (by simp))
      obtain ⟨rest, rfl, last⟩ := ih (fun a b split nonempty => by
        simpa using fails (c :: a) b (by simp [split]) nonempty) later
      exact ⟨rest, rfl, last⟩

theorem Swept.keeps_stretch (kept : ∀ b u after v, m.Reads b u after v → ink v = ink u)
    (apart : ∀ b u r after v, m.Reads b (u ++ r) after v → r ≠ [] → r ++ after ≠ w ++ y)
    (fails : ∀ o a b, w = a ++ b → b ≠ [] → Fails m (lastOf o a) (b ++ y))
    (swept : Swept m before (x ++ (w ++ y)) out) : ∃ x' y', out = x' ++ (w ++ y') ∧ ink x' = ink x := by
  obtain ⟨x', out', rfl, same, onward⟩ := swept.reaches kept apart
  obtain ⟨rest, rfl, -⟩ := onward.copies_all (fails _)
  exact ⟨x', rest, rfl, same⟩

theorem Swept.separates {k z' : List Char} (kept : ∀ b u after v, m.Reads b u after v → ink v = ink u)
    (advances : m.Advances) (starts : ∀ b u after v, m.Reads b u after v → ∀ c ∈ u.head?, isBlank c = true)
    (inked : Within isInk w)
    (apart : ∀ b u r after v, m.Reads b (u ++ r) after v → r ≠ [] → r ++ after ≠ w ++ (k ++ y))
    (nonempty : k ≠ []) (reads : ∀ b, ¬ Fails m b (k ++ y))
    (writes : ∀ b u after v, k ++ y = u ++ after → m.Reads b u after v → ∃ v', v = ';' :: (z' ++ v'))
    (swept : Swept m before (x ++ (w ++ (k ++ y))) out) :
    ∃ x' y', out = x' ++ (w ++ ([';'] ++ (z' ++ y'))) ∧ ink x' = ink x := by
  obtain ⟨x', out', rfl, same, onward⟩ := swept.reaches kept apart
  obtain ⟨rest, rfl, later⟩ :=
    onward.copies_off starts (fun c member => isBlank_of_isInk (inked c member)) advances
  obtain ⟨c, k, rfl⟩ := List.exists_cons_of_ne_nil nonempty
  rcases later.cases_cons with ⟨u, after, v, out, split, rfl, here, -, -⟩ | ⟨fails, -⟩
  · obtain ⟨v', rfl⟩ := writes _ u after v split here
    exact ⟨x', v' ++ out, by simp, same⟩
  · exact absurd fails (reads _)

end Pattern

end SourceBundle
