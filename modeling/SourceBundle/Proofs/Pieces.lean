import SourceBundle.Proofs.Respacing
import Mathlib.Data.List.SplitBy

/-!
The pieces of a text: the maximal runs of a class, and the characters outside it one by one. Changes
of spacing leave the sequence of pieces as it is, spacing apart, where the marks that blanks may go
beside are not of the class.
-/

namespace SourceBundle.Text

/-- The pieces of a text, runs of the class `joins` and single characters, as far as they are made of
characters that are `kept`. -/
def pieces (joins kept : Char → Bool) (s : List Char) : List (List Char) :=
  (s.splitBy fun c d => joins c && joins d).filter fun piece => piece.all kept

/-- The words of a text and its other characters but for spacing, in order. -/
def tokens : List Char → List (List Char) := pieces isWord fun c => !isSpacing c

/-- The operators of a text: the maximal runs of operator characters, in order. -/
def operatorRuns : List Char → List (List Char) := pieces isOperator isOperator

def Outside (joins : Char → Bool) (mark : List Char) : Prop :=
  (∃ c ∈ mark.head?, joins c = false) ∧ ∃ c ∈ mark.getLast?, joins c = false

instance (joins : Char → Bool) (mark : List Char) : Decidable (Outside joins mark) :=
  inferInstanceAs (Decidable (_ ∧ _))

variable {marks : List String} {ends joins kept : Char → Bool} {x g h y u w : List Char}

/-- A place that no piece spans. -/
def Seam (joins : Char → Bool) (u w : List Char) : Prop :=
  ∀ c ∈ u.getLast?, ∀ d ∈ w.head?, (joins c && joins d) = false

theorem pieces_append (seam : Seam joins u w) :
    pieces joins kept (u ++ w) = pieces joins kept u ++ pieces joins kept w := by
  rw [pieces, List.splitBy_append seam, List.filter_append, pieces, pieces]

theorem pieces_eq_nil (dropped : ∀ c ∈ g, kept c = false) : pieces joins kept g = [] := by
  rw [pieces, List.filter_eq_nil_iff]
  intro piece member every
  obtain ⟨c, u, rfl⟩ := List.exists_cons_of_ne_nil (List.ne_nil_of_mem_splitBy member)
  have inside : c ∈ g := by
    rw [← List.flatten_splitBy (fun c d => joins c && joins d) g]
    exact List.mem_flatten.2 ⟨c :: u, member, by simp⟩
  simp [dropped c inside] at every

theorem pieces_spaced (apart : ∀ c, isSpacing c = true → joins c = false)
    (dropped : ∀ c, isSpacing c = true → kept c = false) (spacing : Within isSpacing g)
    (nonempty : g ≠ []) :
    pieces joins kept (x ++ g ++ y) = pieces joins kept x ++ pieces joins kept y := by
  have before : Seam joins x g := by
    intro c _ d first
    simp [apart d (spacing d (List.mem_of_mem_head? first))]
  have after : Seam joins (x ++ g) y := by
    intro c last d _
    rw [List.getLast?_append_of_ne_nil _ nonempty] at last
    simp [apart c (spacing c (List.mem_of_getLast? last))]
  rw [pieces_append after, pieces_append before,
    pieces_eq_nil (fun c member => dropped c (spacing c member)), List.append_nil]

theorem pieces_run (whole : ∀ c, joins c = true → kept c = true) (inside : Within joins u)
    (nonempty : u ≠ []) : pieces joins kept u = [u] := by
  have chain : u.IsChain fun c d => (joins c && joins d) = true := by
    rw [List.isChain_iff_forall_rel_of_append_cons_cons]
    rintro c d front back rfl
    simp [inside c (by simp), inside d (by simp)]
  rw [pieces, List.splitBy_of_isChain nonempty chain]
  simpa using fun c member => whole c (inside c member)

/-- Where a run spans a place there is one piece fewer than on the two sides together. -/
theorem length_pieces_fused (whole : ∀ c, joins c = true → kept c = true)
    (last : ∃ c ∈ x.getLast?, joins c = true) (first : ∃ c ∈ y.head?, joins c = true) :
    (pieces joins kept (x ++ y)).length + 1 =
      (pieces joins kept x).length + (pieces joins kept y).length := by
  obtain ⟨x, u, rfl, inside, before⟩ := exists_run_end joins x
  obtain ⟨w, y, rfl, inside', after⟩ := exists_run joins y
  have filled : u ≠ [] := by
    rintro rfl
    obtain ⟨c, last, joins⟩ := last
    simp [before c (by simpa using last)] at joins
  have filled' : w ≠ [] := by
    rintro rfl
    obtain ⟨c, first, joins⟩ := first
    simp [after c (by simpa using first)] at joins
  have left : ∀ z, Seam joins x z := fun z c last d first => by simp [before c last]
  have right : ∀ z, Seam joins z y := fun z c last d first => by simp [after d first]
  have whole' : pieces joins kept (x ++ (u ++ w) ++ y) =
      pieces joins kept x ++ [u ++ w] ++ pieces joins kept y := by
    rw [pieces_append (right _), pieces_append (left _),
      pieces_run whole (u := u ++ w) (by simp [inside, inside']) (by simp [filled])]
  rw [pieces_append (left _), pieces_append (right _), pieces_run whole inside filled,
    pieces_run whole inside' filled', ← List.append_assoc, List.append_assoc x u w, whole']
  simp only [List.length_append, List.length_cons, List.length_nil]
  omega

theorem length_pieces_append_le (whole : ∀ c, joins c = true → kept c = true) :
    (pieces joins kept (x ++ y)).length ≤
      (pieces joins kept x).length + (pieces joins kept y).length := by
  by_cases seam : Seam joins x y
  · rw [pieces_append seam, List.length_append]
  · simp only [Seam, not_forall, Bool.not_eq_false, Bool.and_eq_true] at seam
    obtain ⟨c, last, d, first, joined⟩ := seam
    have := length_pieces_fused whole ⟨c, last, joined.1⟩ ⟨d, first, joined.2⟩
    omega

theorem seam_of_beside (outside : ∀ mark ∈ marks, Outside joins mark.toList)
    (beside : Beside marks x y) : Seam joins x y := by
  obtain ⟨mark, member, ⟨w, rfl⟩ | ⟨w, rfl⟩⟩ := beside
  · obtain ⟨-, c, last, other⟩ := outside mark member
    intro d last' e _
    have filled : mark.toList ≠ [] := by rintro empty; simp [empty] at last
    rw [List.getLast?_append_of_ne_nil _ filled] at last'
    simp_all
  · obtain ⟨⟨c, first, other⟩, -⟩ := outside mark member
    intro d _ e first'
    have filled : mark.toList ≠ [] := by rintro empty; simp [empty] at first
    rw [List.head?_append_of_ne_nil _ filled] at first'
    simp_all

theorem pieces_change (apart : ∀ c, isSpacing c = true → joins c = false)
    (dropped : ∀ c, isSpacing c = true → kept c = false)
    (outside : ∀ mark ∈ marks, Outside joins mark.toList) (change : Change marks ends x g h y) :
    pieces joins kept (x ++ h ++ y) = pieces joins kept (x ++ g ++ y) := by
  rw [pieces_spaced apart dropped change.spacing change.nonempty]
  by_cases empty : h = []
  · subst empty
    rw [List.append_nil]
    exact pieces_append (seam_of_beside outside change.beside)
  · exact pieces_spaced apart dropped change.spacing' empty

theorem pieces_respaced (apart : ∀ c, isSpacing c = true → joins c = false)
    (dropped : ∀ c, isSpacing c = true → kept c = false)
    (outside : ∀ mark ∈ marks, Outside joins mark.toList) (respaced : Respaced marks ends u w) :
    pieces joins kept w = pieces joins kept u :=
  respaced.congr fun _ _ _ _ change => pieces_change apart dropped outside change

theorem tokens_respaced (outside : ∀ mark ∈ marks, Outside isWord mark.toList)
    (respaced : Respaced marks ends u w) : tokens w = tokens u :=
  pieces_respaced (fun _ => isWord_of_isSpacing) (by simp) outside respaced

theorem operatorRuns_respaced (outside : ∀ mark ∈ marks, Outside isOperator mark.toList)
    (respaced : Respaced marks ends u w) : operatorRuns w = operatorRuns u :=
  pieces_respaced (fun _ => isOperator_of_isSpacing) (fun _ => isOperator_of_isSpacing) outside respaced

end SourceBundle.Text
