import SourceBundle.Proofs.Joining
import SourceBundle.Proofs.Respacing

/-!
Passes that leave a text as it is or make it lighter. A sequence of such passes leaves a text as it is
only where each of them does.
-/

namespace SourceBundle

open Text

def Lightens (s s' : List Char) : Prop := s' = s ∨ weight s' < weight s

variable {marks : List String} {ends : Char → Bool} {u v s s' t out : List Char} {before : Option Char}

theorem Lightens.refl (s : List Char) : Lightens s s := .inl rfl

theorem Lightens.le (lightens : Lightens s s') : weight s' ≤ weight s := by
  rcases lightens with rfl | lighter <;> omega

theorem Lightens.trans (first : Lightens s s') (second : Lightens s' t) : Lightens s t := by
  rcases first with rfl | first
  · exact second
  · have := second.le
    exact .inr (by omega)

theorem Lightens.append (left : Lightens u v) (right : Lightens s s') :
    Lightens (u ++ s) (v ++ s') := by
  rcases left with rfl | left
  · rcases right with rfl | right
    · exact .refl _
    · exact .inr (by simpa using right)
  · have := right.le
    refine .inr ?_
    rw [weight_append, weight_append]
    omega

theorem lightens_nil (s : List Char) : Lightens s [] := by
  by_cases empty : s = []
  · exact .inl empty.symm
  · exact .inr (weight_pos empty)

theorem Respaced.lightens (respaced : Respaced marks ends s s') : Lightens s s' := by
  refine respaced.keeps (P := Lightens s) (fun x g h y change sofar => sofar.trans ?_) (.refl s)
  refine Lightens.append (Lightens.append (.refl x) ?_) (.refl y)
  exact change.lighter.imp_left Eq.symm

namespace Pattern

variable {p : Pattern}

theorem Swept.lightens (each : ∀ before u after v, p.Reads before u after v → Lightens u v)
    (swept : p.Swept before s out) : Lightens s out :=
  swept.relates .refl .trans (fun w _ _ lightens => (Lightens.refl w).append lightens) fun before u after v reads =>
    (each before u after v reads).append (.refl after)

theorem Swept.mem (drops : ∀ before u after v, p.Reads before u after v → v = [])
    (swept : p.Swept before s out) {c : Char} (member : c ∈ out) : c ∈ s := by
  induction swept with
  | done => exact member
  | step reads nonempty later ih =>
      rw [drops _ _ _ _ reads, List.nil_append] at member
      exact List.mem_append_right _ (ih member)
  | skip fails later ih =>
      rcases List.mem_cons.1 member with rfl | member
      · simp
      · exact List.mem_cons_of_mem _ (ih member)

theorem rewrite_drop_lightens (advances : (drop p).Advances) (s : List Char) :
    Lightens s ((drop p).rewrite s) := by
  refine (rewrite_swept advances s).lightens fun before u after v reads => ?_
  rw [(reads_drop.1 reads).1]
  exact lightens_nil u

end Pattern

namespace RuleSet

variable {separator : Char} {declaration : Pattern} {rules : List Rule}

theorem Joined.lightens (each : ∀ before u after v, declaration.Reads before u after v →
      Lightens u (oneLine separator v)) (joined : Joined separator declaration before s out) :
    Lightens s out :=
  joined.relates .refl .trans (fun w _ _ lightens => (Lightens.refl w).append lightens) fun before u after v reads =>
    (each before u after v reads).append (.refl after)

theorem applyAll_keeps {P : List Char → Prop} (each : ∀ rule ∈ rules, ∀ s, P s → P (rule.apply s))
    (holds : P s) : P (applyAll rules s) := by
  induction rules generalizing s with
  | nil => exact holds
  | cons rule rules ih =>
      exact ih (fun rule member => each rule (by simp [member])) (each rule (by simp) s holds)

theorem applyAll_cases (each : ∀ rule ∈ rules, ∀ s, Lightens s (rule.apply s)) (s : List Char) :
    applyAll rules s = s ∧ (∀ rule ∈ rules, rule.apply s = s) ∨ weight (applyAll rules s) < weight s := by
  induction rules generalizing s with
  | nil => simp [applyAll]
  | cons rule rules ih =>
      have first := each rule (by simp) s
      have others := ih (fun rule member => each rule (by simp [member])) (rule.apply s)
      change applyAll rules (rule.apply s) = s ∧ _ ∨ weight (applyAll rules (rule.apply s)) < _
      rcases first with same | lighter
      · rw [same] at others ⊢
        simpa [same] using others
      · right
        rcases others with ⟨same, -⟩ | others
        · rwa [same]
        · omega

theorem applyAll_eq_self_iff (each : ∀ rule ∈ rules, ∀ s, Lightens s (rule.apply s)) (s : List Char) :
    applyAll rules s = s ↔ ∀ rule ∈ rules, rule.apply s = s := by
  constructor
  · intro same
    rcases applyAll_cases each s with ⟨-, every⟩ | lighter
    · exact every
    · rw [same] at lighter
      exact absurd lighter (lt_irrefl _)
  · intro every
    induction rules with
    | nil => rfl
    | cons rule rules ih =>
        change applyAll rules (rule.apply s) = s
        rw [every rule (by simp)]
        exact ih (fun rule member => each rule (by simp [member])) fun rule member =>
          every rule (by simp [member])

theorem applyAll_lightens (each : ∀ rule ∈ rules, ∀ s, Lightens s (rule.apply s)) (s : List Char) :
    Lightens s (applyAll rules s) :=
  (applyAll_cases each s).imp_left And.left

end RuleSet

end SourceBundle
