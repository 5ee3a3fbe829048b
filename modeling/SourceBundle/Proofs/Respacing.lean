import SourceBundle.Proofs.Spacing
import SourceBundle.Proofs.Sweep
import Mathlib.Logic.Relation
import Mathlib.Data.List.Infix

/-!
Changes of the spacing of a text. `Change` says which stretch of spacing may become which, from what
stands on either side of it; `Respaced` is any number of such changes. A sweep each of whose readings
is a respacing of the text from that place on is a respacing of the whole text.
-/

namespace SourceBundle

open Text

/-- One of the texts ends what comes before, or starts what comes after. -/
def Beside (marks : List String) (x y : List Char) : Prop :=
  ∃ mark ∈ marks, mark.toList <:+ x ∨ mark.toList <+: y

/-- A change of the spacing between `x` and `y`. Blanks beside one of the `marks` may go, blanks
after a character that `ends` a word may be lighter ones, and blanks with a line break before a keyword
or an attribute may be a semicolon; the semicolon may go again after a mark, and is a space after `in`. -/
inductive Change (marks : List String) (ends : Char → Bool) :
    List Char → List Char → List Char → List Char → Prop
  | close {x g y : List Char} (blank : Within isBlank g) (nonempty : g ≠ [])
      (beside : Beside marks x y) (stops : Stops isBlank y) : Change marks ends x g [] y
  | space {x g h y : List Char} {c : Char} (blank : Within isBlank g) (nonempty : g ≠ [])
      (inline : Within isInlineBlank h) (kept : h ≠ []) (lighter : g = h ∨ weight h < weight g)
      (ended : ends c = true) : Change marks ends (x ++ [c]) g h y
  | separate {x g y : List Char} {c : Char} (blank : Within isBlank g) (broken : '\n' ∈ g)
      (starts : c ∈ ['@', 'd', 's', 'r', 'c']) : Change marks ends x g [';'] (c :: y)
  | correct {x y : List Char} {mark : String} (member : mark ∈ marks) (after : mark.toList <:+ x) :
      Change marks ends x [';'] [] y
  | closure {x y : List Char} : Change marks ends (x ++ ['i', 'n']) [';'] [' '] y

inductive Respace (marks : List String) (ends : Char → Bool) : List Char → List Char → Prop
  | between {x g h y : List Char} (change : Change marks ends x g h y) :
      Respace marks ends (x ++ g ++ y) (x ++ h ++ y)

abbrev Respaced (marks : List String) (ends : Char → Bool) : List Char → List Char → Prop :=
  Relation.ReflTransGen (Respace marks ends)

variable {marks marks' : List String} {ends ends' : Char → Bool} {x g h y s s' w : List Char}

theorem Beside.prepend (beside : Beside marks x y) (w : List Char) : Beside marks (w ++ x) y := by
  obtain ⟨mark, member, before | after⟩ := beside
  · exact ⟨mark, member, .inl (before.trans (List.suffix_append w x))⟩
  · exact ⟨mark, member, .inr after⟩

theorem Change.prepend (change : Change marks ends x g h y) (w : List Char) :
    Change marks ends (w ++ x) g h y := by
  cases change with
  | close blank nonempty beside stops => exact .close blank nonempty (beside.prepend w) stops
  | space blank nonempty inline kept lighter ended =>
      rw [← List.append_assoc]
      exact .space blank nonempty inline kept lighter ended
  | separate blank broken starts => exact .separate blank broken starts
  | correct member after => exact .correct member (after.trans (List.suffix_append w x))
  | closure =>
      rw [← List.append_assoc]
      exact .closure

theorem Change.mono (change : Change marks ends x g h y) (more : marks ⊆ marks')
    (wider : ∀ c, ends c = true → ends' c = true) : Change marks' ends' x g h y := by
  cases change with
  | close blank nonempty beside stops =>
      obtain ⟨mark, member, place⟩ := beside
      exact .close blank nonempty ⟨mark, more member, place⟩ stops
  | space blank nonempty inline kept lighter ended =>
      exact .space blank nonempty inline kept lighter (wider _ ended)
  | separate blank broken starts => exact .separate blank broken starts
  | correct member after => exact .correct (more member) after
  | closure => exact .closure

theorem Change.spacing (change : Change marks ends x g h y) : Within isSpacing g := by
  cases change with
  | close blank | space blank | separate blank => exact blank.mono fun _ => isSpacing_of_isBlank
  | correct | closure => simp [isSpacing]

theorem Change.nonempty (change : Change marks ends x g h y) : g ≠ [] := by
  cases change with
  | close _ nonempty | space _ nonempty => exact nonempty
  | separate _ broken => exact List.ne_nil_of_mem broken
  | correct | closure => simp

theorem Change.spacing' (change : Change marks ends x g h y) : Within isSpacing h := by
  cases change with
  | close | correct => simp
  | space _ _ inline =>
      exact inline.mono fun _ inline => isSpacing_of_isBlank (isBlank_of_isInlineBlank inline)
  | separate | closure => simp [isSpacing, isBlank]

theorem Change.beside (change : Change marks ends x g [] y) : Beside marks x y := by
  cases change with
  | close _ _ beside => exact beside
  | space _ _ _ kept => exact absurd rfl kept
  | correct member after => exact ⟨_, member, .inl after⟩

theorem Change.lighter (change : Change marks ends x g h y) : g = h ∨ weight h < weight g := by
  cases change with
  | close _ nonempty => exact .inr (weight_pos nonempty)
  | space _ _ _ _ lighter => exact lighter
  | separate _ broken =>
      obtain ⟨k, k', rfl⟩ := List.append_of_mem broken
      have newline : heft '\n' = 3 := rfl
      have semicolon : heft ';' = 2 := rfl
      simp only [weight_append, weight_cons, weight_nil, newline, semicolon]
      omega
  | correct | closure => decide

theorem Change.newline_not_mem (change : Change marks ends x g h y) : '\n' ∉ h := by
  cases change with
  | space _ _ inline =>
      intro member
      simpa [isInlineBlank] using inline _ member
  | _ => decide

theorem Change.respaced (change : Change marks ends x g h y) :
    Respaced marks ends (x ++ g ++ y) (x ++ h ++ y) :=
  .single (.between change)

theorem Respaced.prepend (respaced : Respaced marks ends s s') (w : List Char) :
    Respaced marks ends (w ++ s) (w ++ s') := by
  induction respaced with
  | refl => exact .refl
  | tail _ step ih =>
      cases step with
      | between change =>
          refine ih.tail ?_
          simpa using Respace.between (change.prepend w)

theorem Respaced.mono (respaced : Respaced marks ends s s') (more : marks ⊆ marks')
    (wider : ∀ c, ends c = true → ends' c = true) : Respaced marks' ends' s s' := by
  refine Relation.ReflTransGen.mono ?_ _ _ respaced
  rintro _ _ ⟨change⟩
  exact .between (change.mono more wider)

theorem Respaced.keeps {P : List Char → Prop}
    (kept : ∀ x g h y, Change marks ends x g h y → P (x ++ g ++ y) → P (x ++ h ++ y))
    (respaced : Respaced marks ends s s') (holds : P s) : P s' := by
  induction respaced with
  | refl => exact holds
  | tail _ step ih =>
      cases step with
      | between change => exact kept _ _ _ _ change ih

theorem Respaced.congr {α : Type} {f : List Char → α}
    (same : ∀ x g h y, Change marks ends x g h y → f (x ++ h ++ y) = f (x ++ g ++ y))
    (respaced : Respaced marks ends s s') : f s' = f s :=
  respaced.keeps (P := fun z => f z = f s) (fun x g h y change here => (same x g h y change).trans here)
    rfl

/-- Every reading of the pattern is a respacing of the text from there on. -/
def Pattern.Respaces (marks : List String) (ends : Char → Bool) (p : Pattern) : Prop :=
  ∀ before u after v, p.Reads before u after v → Respaced marks ends (u ++ after) (v ++ after)

theorem Pattern.Respaces.mono {p : Pattern} (respaces : p.Respaces marks ends) (more : marks ⊆ marks')
    (wider : ∀ c, ends c = true → ends' c = true) : p.Respaces marks' ends' :=
  fun before u after v reads => (respaces before u after v reads).mono more wider

theorem Pattern.Swept.respaced {p : Pattern} {before : Option Char} {out : List Char}
    (respaces : p.Respaces marks ends) (swept : p.Swept before s out) :
    Respaced marks ends s out :=
  swept.relates (fun _ => .refl) (fun first => first.trans) (fun w _ _ respaced => respaced.prepend w) respaces

theorem Pattern.rewrite_respaced {p : Pattern} (advances : p.Advances)
    (respaces : p.Respaces marks ends) (s : List Char) : Respaced marks ends s (p.rewrite s) :=
  (rewrite_swept advances s).respaced respaces

end SourceBundle
