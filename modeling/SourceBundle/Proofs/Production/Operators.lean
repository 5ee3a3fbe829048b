import SourceBundle.Proofs.Pieces
import SourceBundle.Proofs.Production.Cleanup

/-!
What closing up operators does to the operators of a text. An operator with blanks on both sides loses
them whatever stands next to them, so it is fused with an operator right beside the blanks. That is
the only way in which the production profile changes the sequence of operators.
-/

namespace SourceBundle.Swift

open Pattern Text

variable {operators : List String} {before o : Option Char} {s out w x g m h y : List Char}

def EndsOperator (x : List Char) : Prop := ∃ c ∈ x.getLast?, isOperator c = true

def StartsOperator (y : List Char) : Prop := ∃ c ∈ y.head?, isOperator c = true

/-- The text `m` stands between blanks, and an operator stands right beside them. -/
structure Crowding (x g m h y : List Char) : Prop where
  left : Within isBlank g
  left_nonempty : g ≠ []
  right : Within isBlank h
  right_nonempty : h ≠ []
  beside : EndsOperator x ∨ StartsOperator y

/-- One of the operators stands between blanks right beside another operator. -/
def Crowded (operators : List String) (s : List Char) : Prop :=
  ∃ operator ∈ operators, ∃ x g h y, s = x ++ g ++ operator.toList ++ h ++ y ∧
    Crowding x g operator.toList h y

/-- Blanks go, and no operator stood on both sides of them. -/
inductive Loosened : List Char → List Char → Prop
  | close {x g y : List Char} (blank : Within isBlank g) (nonempty : g ≠ []) (seam : Seam isOperator x y) :
      Loosened (x ++ g ++ y) (x ++ y)

theorem operatorRuns_spaced (spacing : Within isSpacing g) (nonempty : g ≠ []) :
    operatorRuns (x ++ g ++ y) = operatorRuns x ++ operatorRuns y :=
  pieces_spaced (fun _ => isOperator_of_isSpacing) (fun _ => isOperator_of_isSpacing) spacing nonempty

theorem Loosened.operatorRuns_eq (loosened : Loosened s w) : operatorRuns w = operatorRuns s := by
  cases loosened with
  | close blank nonempty seam =>
      rw [operatorRuns_spaced (blank.mono fun _ => isSpacing_of_isBlank) nonempty]
      exact pieces_append seam

theorem length_operatorRuns_respaced {marks : List String} {ends : Char → Bool}
    (respaced : Respaced marks ends s w) : (operatorRuns w).length ≤ (operatorRuns s).length := by
  refine respaced.keeps (P := fun z => (operatorRuns z).length ≤ (operatorRuns s).length) ?_ le_rfl
  intro x g h y change fewer
  refine le_trans ?_ fewer
  rw [operatorRuns_spaced change.spacing change.nonempty]
  by_cases empty : h = []
  · subst empty
    rw [List.append_nil, List.length_append]
    exact length_pieces_append_le fun _ => id
  · rw [operatorRuns_spaced change.spacing' empty]

theorem endsOperator_append (nonempty : x ≠ []) : EndsOperator (w ++ x) ↔ EndsOperator x := by
  rw [EndsOperator, List.getLast?_append_of_ne_nil _ nonempty, EndsOperator]

theorem startsOperator_append (nonempty : y ≠ []) : StartsOperator (y ++ w) ↔ StartsOperator y := by
  rw [StartsOperator, List.head?_append_of_ne_nil _ nonempty, StartsOperator]

theorem endsOperator_of_within (inside : Within isOperator m) (nonempty : m ≠ []) : EndsOperator m := by
  obtain ⟨z, c, rfl⟩ := (List.eq_nil_or_concat m).resolve_left nonempty
  exact ⟨c, by simp, inside c (by simp)⟩

theorem startsOperator_of_within (inside : Within isOperator m) (nonempty : m ≠ []) :
    StartsOperator m := by
  obtain ⟨c, z, rfl⟩ := List.exists_cons_of_ne_nil nonempty
  exact ⟨c, by simp, inside c (by simp)⟩

theorem not_seam (last : EndsOperator x) (first : StartsOperator y) : ¬ Seam isOperator x y := by
  intro seam
  obtain ⟨c, last, operator⟩ := last
  obtain ⟨d, first, operator'⟩ := first
  simpa [operator, operator'] using seam c last d first

theorem Crowding.loosened {x₀ g₀ y₀ : List Char} (crowding : Crowding x g m h y)
    (inside : Within isOperator m) (blank : Within isBlank g₀) (seam : Seam isOperator x₀ y₀)
    (split : x₀ ++ y₀ = x ++ (g ++ (m ++ (h ++ y)))) :
    ∃ x' g' h' y', x₀ ++ g₀ ++ y₀ = x' ++ g' ++ m ++ h' ++ y' ∧ Crowding x' g' m h' y' := by
  obtain ⟨left, filled, right, filled', beside⟩ := crowding
  rcases List.append_eq_append_iff.1 split with ⟨z, rfl, rfl⟩ | ⟨z, rfl, inner⟩
  · by_cases empty : z = []
    · subst empty
      exact ⟨x₀, g₀ ++ g, h, y, by simp, by simp [blank, left], by simp [filled], right, filled',
        by simpa using beside⟩
    · refine ⟨x₀ ++ g₀ ++ z, g, h, y, by simp, left, filled, right, filled', beside.imp_left ?_⟩
      simp only [endsOperator_append empty, imp_self]
  rcases List.append_eq_append_iff.1 inner.symm with ⟨z', rfl, rfl⟩ | ⟨z', rfl, middle⟩
  · rw [within_append] at left
    exact ⟨x, z ++ g₀ ++ z', h, y, by simp, by simp [left.1, left.2, blank],
      fun empty => filled (by simp_all), right, filled', beside⟩
  rcases List.append_eq_append_iff.1 middle.symm with ⟨z, rfl, rfl⟩ | ⟨z, rfl, last⟩
  · by_cases empty : z' = []
    · subst empty
      exact ⟨x, g ++ g₀, h, y, by simp, by simp [left, blank], by simp [filled], right, filled', beside⟩
    by_cases empty' : z = []
    · subst empty'
      exact ⟨x, g, g₀ ++ h, y, by simp, left, filled, by simp [right, blank], by simp [filled'], beside⟩
    rw [within_append] at inside
    refine absurd seam (not_seam ?_ ?_)
    · rw [endsOperator_append (by simp [empty]), endsOperator_append empty]
      exact endsOperator_of_within inside.1 empty
    · rw [startsOperator_append empty']
      exact startsOperator_of_within inside.2 empty'
  rcases List.append_eq_append_iff.1 last.symm with ⟨z', rfl, rfl⟩ | ⟨z', rfl, rfl⟩
  · rw [within_append] at right
    exact ⟨x, g, z ++ g₀ ++ z', y, by simp, left, filled, by simp [right.1, right.2, blank],
      fun empty => filled' (by simp_all), beside⟩
  · by_cases empty : z' = []
    · subst empty
      exact ⟨x, g, h ++ g₀, y₀, by simp, left, filled, by simp [right, blank], by simp [filled'],
        by simpa using beside⟩
    · refine ⟨x, g, h, z' ++ g₀ ++ y₀, by simp, left, filled, right, filled', beside.imp_right ?_⟩
      simp only [List.append_assoc, startsOperator_append empty, imp_self]

theorem Loosened.crowded (loosened : Loosened s w)
    (texts : ∀ operator ∈ operators, Within isOperator operator.toList)
    (crowded : Crowded operators w) : Crowded operators s := by
  cases loosened with
  | close blank nonempty seam =>
      obtain ⟨operator, member, x, g, h, y, split, crowding⟩ := crowded
      obtain ⟨x', g', h', y', split', crowding'⟩ := crowding.loosened (texts operator member) blank seam
        (by simpa using split)
      exact ⟨operator, member, x', g', h', y', split', crowding'⟩

theorem seam_left (other : ¬ EndsOperator x) : Seam isOperator x y := by
  intro c last d _
  by_contra joined
  exact other ⟨c, last, by simp_all⟩

theorem seam_right (other : ¬ StartsOperator y) : Seam isOperator x y := by
  intro c _ d first
  by_contra joined
  exact other ⟨d, first, by simp_all⟩

theorem endsOperator_congr (same : lastOf none x = lastOf none w) : EndsOperator x ↔ EndsOperator w := by
  rw [EndsOperator, EndsOperator, ← lastOf_none, ← lastOf_none, same]

theorem endsOperator_written {p z : List Char} (place : lastOf none p = before)
    (start : lastOf none w = before ∨ Stops isBlank (g ++ z)) (blank : Within isBlank g)
    (nonempty : g ≠ []) : EndsOperator w ↔ EndsOperator p := by
  refine endsOperator_congr ((start.resolve_right fun stops => ?_).trans place.symm)
  obtain ⟨c, g, rfl⟩ := List.exists_cons_of_ne_nil nonempty
  rw [within_cons] at blank
  simp [blank.1] at stops

/-- Where no operator is crowded, closing up operators fuses none. `p` is the text that was read and
`w` what was written for it. -/
theorem loosened_of_swept {p : List Char} (filled : operators ≠ [])
    (swept : Swept (tightOperator operators) before s out) (place : lastOf none p = before)
    (start : lastOf none w = before ∨ Stops isBlank s) (free : ¬ Crowded operators (p ++ s)) :
    Relation.ReflTransGen Loosened (w ++ s) (w ++ out) := by
  induction swept generalizing p w with
  | done => exact .refl
  | @step before u after v out reads nonempty later ih =>
      obtain ⟨g, operator, h, member, rfl, rfl, left, filled', -, right, filled'', stops⟩ :=
        (reads_tightOperator filled).1 reads
      have alone : ¬ (EndsOperator p ∨ StartsOperator after) := by
        intro beside
        exact free ⟨operator, member, p, g, h, after, by simp, left, filled', right, filled'', beside⟩
      rw [not_or] at alone
      have same := endsOperator_written (z := operator.toList ++ (h ++ after)) place
        (by simpa using start) left filled'
      have first := Loosened.close left filled' (seam_left (y := operator.toList ++ h ++ after)
        (same.not.2 alone.1))
      have second := Loosened.close right filled'' (seam_right (x := w ++ operator.toList) alone.2)
      have rest := ih (p := p ++ (g ++ operator.toList ++ h)) (w := w ++ operator.toList)
        (by simp [place]) (.inr stops) (by simpa using free)
      refine .head (by simpa using first) (.head (by simpa using second) ?_)
      simpa using rest
  | @skip before c s out fails later ih =>
      have rest := ih (p := p ++ [c]) (w := w ++ [c]) (by simp) (.inl (by simp)) (by simpa using free)
      simpa using rest

theorem length_closed (inside : Within isOperator m) (nonempty : m ≠ []) (left : Within isBlank g)
    (filled : g ≠ []) (right : Within isBlank h) (filled' : h ≠ []) :
    (operatorRuns (w ++ m ++ y)).length ≤ (operatorRuns (w ++ g ++ m ++ h ++ y)).length ∧
      (EndsOperator w ∨ StartsOperator y →
        (operatorRuns (w ++ m ++ y)).length < (operatorRuns (w ++ g ++ m ++ h ++ y)).length) := by
  have apart : operatorRuns (w ++ g ++ m ++ h ++ y) =
      operatorRuns w ++ operatorRuns m ++ operatorRuns y := by
    rw [operatorRuns_spaced (right.mono fun _ => isSpacing_of_isBlank) filled',
      operatorRuns_spaced (left.mono fun _ => isSpacing_of_isBlank) filled]
  have whole : ∀ c, isOperator c = true → isOperator c = true := fun _ => id
  have first : (operatorRuns (w ++ m)).length ≤ _ := length_pieces_append_le whole
  have second : (operatorRuns (w ++ m ++ y)).length ≤ _ := length_pieces_append_le whole
  simp only [apart, List.length_append]
  refine ⟨by simp only [operatorRuns] at *; omega, ?_⟩
  rintro (last | start)
  · have fused := length_pieces_fused whole last
      (startsOperator_of_within inside nonempty)
    simp only [operatorRuns] at *
    omega
  · have fused := length_pieces_fused (x := w ++ m) whole
      ((endsOperator_append nonempty).2 (endsOperator_of_within inside nonempty)) start
    simp only [operatorRuns] at *
    omega

theorem tightOperator_starts {u after v : List Char} (filled : operators ≠ [])
    (reads : (tightOperator operators).Reads before u after v) : ∀ c ∈ u.head?, isBlank c = true := by
  obtain ⟨g, operator, h, -, rfl, -, left, nonempty, -⟩ := (reads_tightOperator filled).1 reads
  obtain ⟨c, g, rfl⟩ := List.exists_cons_of_ne_nil nonempty
  simpa using left c (by simp)

theorem outside_blank (inside : Within isOperator m) : ∀ c ∈ m, isBlank c = false := by
  intro c member
  by_contra blank
  have := isOperator_of_isBlank (Bool.not_eq_false _ ▸ blank : isBlank c = true)
  simp [inside c member] at this

theorem stops_operator (inside : Within isOperator m) (nonempty : m ≠ []) : Stops isBlank (m ++ s) := by
  obtain ⟨c, z, rfl⟩ := List.exists_cons_of_ne_nil nonempty
  simpa using outside_blank inside c (by simp)

theorem closed_unique {g' m' h' y' : List Char} (same : g ++ (m ++ (h ++ y)) = g' ++ (m' ++ (h' ++ y')))
    (inside : Within isOperator m) (inside' : Within isOperator m') (nonempty : m ≠ [])
    (nonempty' : m' ≠ []) (left : Within isBlank g) (left' : Within isBlank g') (right : Within isBlank h)
    (right' : Within isBlank h') (filled : h ≠ []) (filled' : h' ≠ []) (stops : Stops isBlank y)
    (stops' : Stops isBlank y') : g = g' ∧ m = m' ∧ h = h' ∧ y = y' := by
  have solid : ∀ {m : List Char}, Within isOperator m → Within (fun c => !isBlank c) m := by
    intro m inside c member
    simp [outside_blank inside c member]
  have ends : ∀ {h y : List Char}, Within isBlank h → h ≠ [] → Stops (fun c => !isBlank c) (h ++ y) := by
    intro h y blank filled
    obtain ⟨c, h, rfl⟩ := List.exists_cons_of_ne_nil filled
    simpa using blank c (by simp)
  obtain ⟨rfl, rest⟩ := run_unique same left left' (stops_operator inside nonempty)
    (stops_operator inside' nonempty')
  obtain ⟨rfl, last⟩ := run_unique rest (solid inside) (solid inside') (ends right filled)
    (ends right' filled')
  obtain ⟨rfl, rfl⟩ := run_unique last right right' stops stops'
  exact ⟨rfl, rfl, rfl, rfl⟩

theorem place_in_reading {g₀ m₀ h₀ z : List Char} (left : Within isBlank g₀) (inside : Within isOperator m₀)
    (right : Within isBlank h₀) (split : x ++ z = g₀ ++ m₀ ++ h₀) (blank : ∃ c ∈ z.head?, isBlank c = true)
    (first : ∀ c ∈ lastOf before x, isBlank c = false) : x = [] ∨ x = g₀ ++ m₀ := by
  have fresh : ∀ {u w : List Char}, x = u ++ w → Within isBlank w → w = [] := by
    rintro u w rfl within
    by_contra filled
    obtain ⟨z, c, rfl⟩ := (List.eq_nil_or_concat w).resolve_left filled
    have solid := first c (by simp)
    simp [within c (by simp)] at solid
  rw [List.append_assoc] at split
  rcases List.append_eq_append_iff.1 split with ⟨k, rfl, -⟩ | ⟨k, rfl, rest⟩
  · rw [within_append] at left
    exact .inl (fresh (List.nil_append _).symm left.1)
  rcases List.append_eq_append_iff.1 rest.symm with ⟨k', rfl, rfl⟩ | ⟨k', rfl, rfl⟩
  · cases k' with
    | nil => simp
    | cons c k' =>
        rw [within_append] at inside
        obtain ⟨d, head, blank⟩ := blank
        obtain rfl : c = d := by simpa using head
        simp [outside_blank inside.2 c (by simp)] at blank
  · rw [within_append] at right
    have empty := fresh (u := g₀ ++ m₀) (by simp) right.1
    exact .inr (by simp [empty])

theorem copied_place (filled : operators ≠ []) (left : Within isBlank g)
    (inside : Within isOperator m) (right : Within isBlank h) (filled' : h ≠ []) (stops : Stops isBlank y)
    (fails : Fails (tightOperator operators) before (g ++ (m ++ (h ++ y))))
    (swept : Swept (tightOperator operators) before (g ++ (m ++ (h ++ y))) out) :
    ∃ o z, Swept (tightOperator operators) o y z ∧ out = g ++ m ++ h ++ z ∨
      ∃ operator ∈ operators, ∃ k after, y = operator.toList ++ k ++ after ∧ Within isBlank k ∧ k ≠ [] ∧
        Swept (tightOperator operators) o after z ∧ out = g ++ m ++ operator.toList ++ z := by
  have leads : (tightOperator operators).leadingRun? = some isBlank := rfl
  obtain ⟨out₁, rfl, swept₁⟩ := swept.copies_run leads left fun _ => fails
  obtain ⟨out₂, rfl, swept₂⟩ := swept₁.copies_off (fun _ _ _ _ => tightOperator_starts filled)
    (outside_blank inside) (tightOperator_advances _)
  by_cases reads : Fails (tightOperator operators) (lastOf (lastOf before g) m) (h ++ y)
  · obtain ⟨out₃, rfl, swept₃⟩ := swept₂.copies_run leads right fun _ => reads
    exact ⟨_, out₃, .inl ⟨swept₃, by simp⟩⟩
  · obtain ⟨c, h, rfl⟩ := List.exists_cons_of_ne_nil filled'
    rcases swept₂.cases_cons with ⟨u, after, v, out₃, split, rfl, reads, -, swept₃⟩ | ⟨fails, -⟩
    · obtain ⟨g', operator, k, member, rfl, rfl, left', -, stops', right', nonempty, -⟩ :=
        (reads_tightOperator filled).1 reads
      have split : c :: h ++ y = g' ++ (operator.toList ++ k ++ after) := by simpa using split
      obtain ⟨rfl, rfl⟩ := run_unique split right left' stops stops'
      exact ⟨_, out₃, .inr ⟨operator, member, k, after, rfl, right', nonempty, swept₃, by simp⟩⟩
    · exact absurd fails reads

theorem length_swept (filled : operators ≠ []) (w : List Char)
    (swept : Swept (tightOperator operators) before s out) :
    (operatorRuns (w ++ out)).length ≤ (operatorRuns (w ++ s)).length :=
  have respaces : (tightOperator operators).Respaces operators isSolid :=
    tightOperator_respaces filled (List.Subset.refl _)
  length_operatorRuns_respaced ((swept.respaced respaces).prepend w)

theorem startsOperator_swept (filled : operators ≠ [])
    (swept : Swept (tightOperator operators) before s out) (start : StartsOperator s) :
    StartsOperator out := by
  obtain ⟨c, head, operator⟩ := start
  obtain ⟨s, rfl⟩ := List.head?_eq_some_iff.1 head
  obtain ⟨z, rfl, -⟩ := Swept.copies_off (u := [c]) (fun _ _ _ _ => tightOperator_starts filled)
    (outside_blank (by simp [operator])) (tightOperator_advances _) swept
  exact ⟨c, by simp, operator⟩

theorem beside_reading {p g₀ m₀ h₀ z after : List Char} (left : Within isBlank g₀) (filled : g₀ ≠ [])
    (inside₀ : Within isOperator m₀) (nonempty₀ : m₀ ≠ []) (right : Within isBlank h₀) (filled' : h₀ ≠ [])
    (stops₀ : Stops isBlank after) (same : EndsOperator w ↔ EndsOperator p) (inside : Within isOperator m)
    (nonempty : m ≠ []) (crowding : Crowding (p ++ x) g m h y) (first : ∀ c ∈ lastOf before x, isBlank c = false)
    (stops : Stops isBlank y) (taken : g₀ ++ m₀ ++ h₀ = x ++ z) (rest : g ++ (m ++ (h ++ y)) = z ++ after) :
    EndsOperator w ∨ StartsOperator after := by
  have blank : ∃ c ∈ z.head?, isBlank c = true := by
    cases z with
    | nil =>
        obtain ⟨c, g, rfl⟩ := List.exists_cons_of_ne_nil crowding.left_nonempty
        have solid := stops₀.head rest.symm
        simp [crowding.left c (by simp)] at solid
    | cons d z => exact ⟨d, by simp, crowding.left.head crowding.left_nonempty rest⟩
  -- The blanks of the place are those in front of the operator that is read, or those behind it.
  rcases place_in_reading left inside₀ right taken.symm blank first with rfl | rfl
  · rw [List.nil_append] at taken
    subst taken
    obtain ⟨rfl, rfl, rfl, rfl⟩ := closed_unique (by simpa using rest) inside inside₀ nonempty nonempty₀
      crowding.left left crowding.right right crowding.right_nonempty filled' stops stops₀
    simpa [same] using crowding.beside
  · obtain rfl : h₀ = z := by simpa using taken
    obtain ⟨rfl, rfl⟩ := run_unique rest crowding.left right (stops_operator inside nonempty) stops₀
    exact .inr ((startsOperator_append nonempty).2 (startsOperator_of_within inside nonempty))

theorem fused_of_fails {p : List Char} (filled : operators ≠ [])
    (texts : ∀ operator ∈ operators, Within isOperator operator.toList ∧ operator.toList ≠ [])
    (fails : Fails (tightOperator operators) before (g ++ (m ++ (h ++ y))))
    (swept : Swept (tightOperator operators) before (g ++ (m ++ (h ++ y))) out)
    (same : EndsOperator w ↔ EndsOperator p) (inside : Within isOperator m) (nonempty : m ≠ [])
    (crowding : Crowding p g m h y) (stops : Stops isBlank y) :
    (operatorRuns (w ++ out)).length < (operatorRuns (w ++ (g ++ (m ++ (h ++ y))))).length ∨
      (∀ operator ∈ operators, operator.toList ≠ m) ∧
        ∃ x' y', w ++ out = x' ++ g ++ m ++ h ++ y' ∧ Crowding x' g m h y' := by
  obtain ⟨o, z, ⟨rest, text⟩ | ⟨operator, member, k, after, rfl, right, filled', rest, text⟩⟩ :=
    copied_place filled crowding.left inside crowding.right crowding.right_nonempty stops fails swept
  · right
    refine ⟨?_, w, z, by simp [text], crowding.left, crowding.left_nonempty, crowding.right,
      crowding.right_nonempty, ?_⟩
    · rintro operator member rfl
      exact fails (g ++ operator.toList ++ h) y operator.toList (by simp)
        ((reads_tightOperator filled).2 ⟨g, operator, h, member, rfl, rfl, crowding.left,
          crowding.left_nonempty, by simpa using stops_operator (s := h ++ y) inside nonempty,
          crowding.right, crowding.right_nonempty, stops⟩)
    · rw [same]
      exact crowding.beside.imp_right (startsOperator_swept filled rest)
  · left
    obtain ⟨inside₀, nonempty₀⟩ := texts operator member
    have fused := (length_closed (w := w ++ g ++ m) (y := after) inside₀ nonempty₀ crowding.right
      crowding.right_nonempty right filled').2 (.inl ((endsOperator_append nonempty).2
        (endsOperator_of_within inside nonempty)))
    have onward := length_swept filled (w ++ g ++ m ++ operator.toList) rest
    rw [text]
    simp only [List.append_assoc] at fused onward ⊢
    omega

/-- Where an operator is crowded by the text around it, closing up operators fuses some or leaves it as
it is. `p` is the text that was read and `w` what was written for it. -/
theorem fused_of_swept {p : List Char} (filled : operators ≠ [])
    (texts : ∀ operator ∈ operators, Within isOperator operator.toList ∧ operator.toList ≠ [])
    (swept : Swept (tightOperator operators) before s out) (place : lastOf none p = before)
    (start : lastOf none w = before ∨ Stops isBlank s) (inside : Within isOperator m) (nonempty : m ≠ [])
    (split : s = x ++ (g ++ (m ++ (h ++ y)))) (crowding : Crowding (p ++ x) g m h y)
    (first : ∀ c ∈ lastOf before x, isBlank c = false) (stops : Stops isBlank y) :
    (operatorRuns (w ++ out)).length < (operatorRuns (w ++ s)).length ∨
      (∀ operator ∈ operators, operator.toList ≠ m) ∧
        ∃ x' y', w ++ out = x' ++ g ++ m ++ h ++ y' ∧ Crowding x' g m h y' := by
  induction swept generalizing p w x with
  | done => simp [crowding.left_nonempty] at split
  | @step before u after v out reads advanced later ih =>
      obtain ⟨g₀, operator, h₀, member, rfl, rfl, left, filled₀, -, right, filled₁, stops₁⟩ :=
        (reads_tightOperator filled).1 reads
      obtain ⟨inside₀, nonempty₀⟩ := texts operator member
      obtain ⟨fewer, fuses⟩ := length_closed (w := w) (y := after) inside₀ nonempty₀ left filled₀ right
        filled₁
      have onward := length_swept filled (w ++ operator.toList) later
      have same := endsOperator_written (z := operator.toList ++ (h₀ ++ after)) place (by simpa using start)
        left filled₀
      simp only [List.append_assoc] at fewer fuses onward ⊢
      -- The reading ends in front of the place, or it reaches into it.
      rcases List.append_eq_append_iff.1 split with ⟨z, rfl, rfl⟩ | ⟨z, taken, rest⟩
      · rcases ih (p := p ++ (g₀ ++ operator.toList ++ h₀)) (w := w ++ operator.toList) (x := z)
          (by simp [place]) (.inr stops₁) rfl (by simpa using crowding) (by simpa using first)
          with shorter | ⟨other, x', y', text, crowded⟩
        · left
          simp only [List.append_assoc] at shorter
          omega
        · exact .inr ⟨other, x', y', by simpa using text, crowded⟩
      · left
        refine lt_of_le_of_lt onward (fuses ?_)
        exact beside_reading left filled₀ inside₀ nonempty₀ right filled₁ stops₁ same inside nonempty crowding
          first stops taken rest
  | @skip before c s out fails later ih =>
      cases x with
      | nil =>
          rw [List.append_nil] at crowding
          have swept := Swept.skip fails later
          rw [List.nil_append] at split
          rw [split] at fails start swept ⊢
          exact fused_of_fails filled texts fails swept
            (endsOperator_written place start crowding.left crowding.left_nonempty) inside nonempty crowding stops
      | cons d x =>
          obtain ⟨rfl, rfl⟩ := List.cons.inj split
          have next := ih (p := p ++ [c]) (w := w ++ [c]) (x := x) (by simp) (.inl (by simp)) rfl
            (by simpa using crowding) (by simpa using first)
          simpa using next

theorem Crowding.whole (crowding : Crowding x g m h y) :
    ∃ x' g' h' y', x ++ (g ++ (m ++ (h ++ y))) = x' ++ (g' ++ (m ++ (h' ++ y'))) ∧
      Crowding x' g' m h' y' ∧ (∀ c ∈ x'.getLast?, isBlank c = false) ∧ Stops isBlank y' := by
  obtain ⟨left, filled, right, filled', beside⟩ := crowding
  obtain ⟨x, z, rfl, blank, first⟩ := exists_run_end isBlank x
  obtain ⟨k, y, rfl, blank', stops⟩ := exists_run isBlank y
  refine ⟨x, z ++ g, h ++ k, y, by simp, ⟨by simp [blank, left], by simp [filled],
    by simp [right, blank'], by simp [filled'], ?_⟩, first, stops⟩
  refine beside.imp ?_ ?_
  · rintro ⟨c, last, operator⟩
    cases z using List.reverseRecOn with
    | nil => exact ⟨c, by simpa using last, operator⟩
    | append_singleton z d =>
        obtain rfl : d = c := by simpa using last
        simp [isOperator_of_isBlank (blank d (by simp))] at operator
  · rintro ⟨c, head, operator⟩
    cases k with
    | nil => exact ⟨c, by simpa using head, operator⟩
    | cons d k =>
        obtain rfl : d = c := by simpa using head
        simp [isOperator_of_isBlank (blank' d (by simp))] at operator

theorem operator_texts : ∀ operator ∈ arithmeticOperators ++ equalityOperators,
    Within isOperator operator.toList ∧ operator.toList ≠ [] := by
  decide

theorem fused_or_kept (filled : operators ≠ [])
    (texts : ∀ operator ∈ operators, Within isOperator operator.toList ∧ operator.toList ≠ [])
    {operator : String} (text : Within isOperator operator.toList ∧ operator.toList ≠ [])
    (crowded : Crowded [operator] s) :
    (operatorRuns ((tightOperator operators).rewrite s)).length < (operatorRuns s).length ∨
      operator ∉ operators ∧ Crowded [operator] ((tightOperator operators).rewrite s) := by
  obtain ⟨name, member, x, g, h, y, rfl, crowding⟩ := crowded
  obtain rfl := List.mem_singleton.1 member
  obtain ⟨x', g', h', y', split, whole, first, stops⟩ := crowding.whole
  have swept := rewrite_swept (tightOperator_advances operators) (x ++ g ++ name.toList ++ h ++ y)
  rcases fused_of_swept (p := []) (w := []) filled texts swept rfl (.inl rfl) text.1 text.2
    (by simpa using split) whole (by rw [lastOf_none]; exact first) stops
    with fewer | ⟨other, x, y, same, crowding⟩
  · exact .inl fewer
  · exact .inr ⟨fun member => other name member rfl, name, by simp, x, g', h', y, same, crowding⟩

/-- Where no operator is crowded, closing up operators keeps them and crowds none. -/
theorem kept_of_not_crowded (filled : operators ≠ []) (included : operators ⊆ arithmeticOperators ++ equalityOperators)
    (free : ¬ Crowded (arithmeticOperators ++ equalityOperators) s) :
    operatorRuns ((tightOperator operators).rewrite s) = operatorRuns s ∧
      ¬ Crowded (arithmeticOperators ++ equalityOperators) ((tightOperator operators).rewrite s) := by
  have swept := rewrite_swept (tightOperator_advances operators) s
  have here : ¬ Crowded operators ([] ++ s) := by
    rintro ⟨operator, member, place⟩
    exact free ⟨operator, included member, place⟩
  have loosened := loosened_of_swept (w := []) filled swept rfl (.inl rfl) here
  simp only [List.nil_append] at loosened
  generalize (tightOperator operators).rewrite s = w at loosened
  induction loosened with
  | refl => exact ⟨rfl, free⟩
  | tail _ step ih =>
      exact ⟨step.operatorRuns_eq.trans ih.1,
        fun crowded => ih.2 (step.crowded (fun _ member => (operator_texts _ member).1) crowded)⟩

/-- The production profile keeps the operators of the reduced text exactly where none of those that it
closes up stands between blanks right beside another operator. -/
theorem operatorRuns_rewrite_iff (embedded : Bool) (s : List Char) :
    operatorRuns ((ruleSet ⟨embedded, true⟩).rewrite s) = operatorRuns (reduced embedded s) ↔
      ¬ Crowded (arithmeticOperators ++ equalityOperators) (reduced embedded s) := by
  change operatorRuns ((production embedded).rewrite s) = _ ↔ _
  rw [rewrite_eq, replacements_eq]
  generalize reduced embedded s = z
  rw [operatorRuns_respaced (by decide +kernel) (applyAll_respaced (fun _ member => layout_respaced member) _)]
  constructor
  · rintro same ⟨operator, member, place⟩
    have fewer : (operatorRuns ((tightOperator equalityOperators).rewrite
        ((tightOperator arithmeticOperators).rewrite z))).length < (operatorRuns z).length := by
      have first := length_operatorRuns_respaced (arithmetic_respaced isSolid z)
      have second := length_operatorRuns_respaced (equality_respaced isSolid
        ((tightOperator arithmeticOperators).rewrite z))
      rcases fused_or_kept (by decide : arithmeticOperators ≠ [])
        (fun _ member => operator_texts _ (List.mem_append_left _ member)) (operator_texts _ member)
        ⟨operator, by simp, place⟩ with fused | ⟨other, crowded⟩
      · omega
      rcases fused_or_kept (by decide : equalityOperators ≠ [])
        (fun _ member => operator_texts _ (List.mem_append_right _ member)) (operator_texts _ member)
        crowded with fused | ⟨other', -⟩
      · omega
      · exact absurd member (by simp [other, other'])
    rw [same] at fewer
    exact lt_irrefl _ fewer
  · intro free
    obtain ⟨same, free⟩ := kept_of_not_crowded (by decide : arithmeticOperators ≠ [])
      (List.subset_append_left _ _) free
    obtain ⟨same', -⟩ := kept_of_not_crowded (by decide : equalityOperators ≠ [])
      (List.subset_append_right _ _) free
    exact same'.trans same

/-- Where a prefix operator follows, the two are fused. -/
theorem operatorRuns_fused :
    operatorRuns ((ruleSet ⟨false, true⟩).rewrite "a && !b\n".toList) ≠
      operatorRuns (reduced false "a && !b\n".toList) := by
  decide +kernel

end SourceBundle.Swift
