import SourceBundle.Proofs.Spacing
import SourceBundle.Proofs.Sweep
import SourceBundle.Rule
import Mathlib.Algebra.Order.BigOperators.Group.List
import Mathlib.Algebra.Order.Group.Nat

/-!
The structural pass as a relation: at each place a declaration is read and put on one line behind the
separator, or none can be read there and a character is copied. A text that the pass changes becomes lighter,
since a newline is heavier than the separator.
-/

namespace SourceBundle

open Text

namespace Text

variable {mark c : Char} {s stretch : List Char}

theorem flatten_cut (mark : Char) (s : List Char) : (cut mark s).flatten = s.filter (· != mark) := by
  induction s with
  | nil => rfl
  | cons c s ih =>
      obtain ⟨first, later, stretches⟩ := List.exists_cons_of_ne_nil (cut_ne_nil mark s)
      rw [stretches] at ih
      rw [cut_cons, stretches]
      by_cases marked : c = mark
      · rw [if_pos marked, List.filter_cons_of_neg (by simp [marked]), ← ih]
        rfl
      · rw [if_neg marked, List.filter_cons_of_pos (by simp [marked]), ← ih]
        rfl

theorem mem_of_mem_cut (present : stretch ∈ cut mark s) (member : c ∈ stretch) : c ∈ s := by
  have whole : c ∈ (cut mark s).flatten := List.mem_flatten.2 ⟨stretch, present, member⟩
  rw [flatten_cut] at whole
  exact List.mem_of_mem_filter whole

theorem trim_sublist (s : List Char) : (trim s).Sublist s := by
  have ends : (trimEnd (trimStart s)).Sublist (trimStart s) := by
    rw [trimEnd, ← List.reverse_sublist, List.reverse_reverse]
    exact List.dropWhile_sublist _
  exact ends.trans (List.dropWhile_sublist _)

theorem flatMap_trim_sublist (stretches : List (List Char)) :
    (stretches.flatMap trim).Sublist stretches.flatten := by
  induction stretches with
  | nil => exact List.Sublist.refl _
  | cons first later ih => exact (trim_sublist first).append ih

theorem onOneLine_sublist (x y : List Char) : (onOneLine (x ++ '\n' :: y)).Sublist (x ++ y) := by
  have whole : (lines (x ++ '\n' :: y)).flatten = x.filter (· != '\n') ++ y.filter (· != '\n') := by
    rw [lines, cut_append_mark, List.flatten_append, flatten_cut, flatten_cut]
  have kept : (x.filter (· != '\n') ++ y.filter (· != '\n')).Sublist (x ++ y) :=
    List.filter_sublist.append List.filter_sublist
  exact (flatMap_trim_sublist _).trans (whole ▸ kept)

theorem mem_of_mem_trim (member : c ∈ trim s) : c ∈ s := (trim_sublist s).subset member

theorem mem_of_mem_onOneLine (member : c ∈ onOneLine s) : c ∈ s := by
  obtain ⟨line, present, inside⟩ := List.mem_flatMap.1 member
  exact mem_of_mem_cut present (mem_of_mem_trim inside)

theorem sum_oneLine (cost : Char → Nat) (separator : Char) (broken : '\n' ∈ s) :
    ((RuleSet.oneLine separator s).map cost).sum + cost '\n' ≤ cost separator + (s.map cost).sum := by
  obtain ⟨x, y, rfl⟩ := List.append_of_mem broken
  have kept := ((onOneLine_sublist x y).map cost).sum_le_sum fun _ _ => Nat.zero_le _
  simp only [RuleSet.oneLine, List.map_append, List.map_cons, List.sum_append, List.sum_cons] at kept ⊢
  omega

theorem weight_oneLine (broken : '\n' ∈ s) : weight (RuleSet.oneLine ';' s) < weight s := by
  have paid := sum_oneLine heft ';' broken
  have newline : heft '\n' = 3 := rfl
  have semicolon : heft ';' = 2 := rfl
  rw [newline, semicolon, ← weight, ← weight] at paid
  omega

theorem cut_append {u : List Char} (absent : mark ∉ u) (s : List Char) :
    ∃ first later, cut mark s = first :: later ∧ cut mark (u ++ s) = (u ++ first) :: later := by
  induction u with
  | nil =>
      obtain ⟨first, later, stretches⟩ := List.exists_cons_of_ne_nil (cut_ne_nil mark s)
      exact ⟨first, later, stretches, stretches⟩
  | cons c u ih =>
      rw [List.mem_cons, not_or] at absent
      obtain ⟨first, later, stretches, joined⟩ := ih absent.2
      exact ⟨first, later, stretches, by
        rw [List.cons_append, cut_cons, if_neg (Ne.symm absent.1), joined]
        rfl⟩

theorem trim_head {g w : List Char} (blank : Within isBlank g) (solid : isBlank c = false) :
    ∃ z, trim (g ++ c :: w) = c :: z := by
  have start : trimStart (g ++ c :: w) = c :: w := by
    rw [trimStart, List.dropWhile_append_of_pos blank]
    simp [solid]
  have ends : ∀ u : List Char, ∃ z, (u ++ [c]).dropWhile isBlank = z ++ [c] := by
    intro u
    induction u with
    | nil => exact ⟨[], by simp [solid]⟩
    | cons d u ih =>
        rw [List.cons_append, List.dropWhile_cons]
        split
        · exact ih
        · exact ⟨d :: u, rfl⟩
  obtain ⟨z, last⟩ := ends w.reverse
  exact ⟨z.reverse, by rw [trim, start, trimEnd, List.reverse_cons, last]; simp⟩

theorem onOneLine_head {g w : List Char} (blank : Within isInlineBlank g) (solid : isBlank c = false) :
    ∃ z, onOneLine (g ++ c :: w) = c :: z := by
  have absent : '\n' ∉ g ++ [c] := by
    rw [List.mem_append, List.mem_singleton]
    rintro (member | rfl)
    · simpa [isInlineBlank] using blank _ member
    · exact absurd solid (by decide)
  obtain ⟨first, later, -, lines⟩ := cut_append absent w
  obtain ⟨z, start⟩ := trim_head (w := first) (blank.mono fun _ => isBlank_of_isInlineBlank) solid
  simp only [List.append_assoc, List.singleton_append] at lines
  exact ⟨z ++ later.flatMap trim, by rw [onOneLine, Text.lines, lines, List.flatMap_cons, start]; rfl⟩

end Text

namespace RuleSet

/-- What the structural pass makes of a text, from left to right. -/
inductive Joined (separator : Char) (declaration : Pattern) :
    Option Char → List Char → List Char → Prop
  | done {before : Option Char} : Joined separator declaration before [] []
  | join {before : Option Char} {u after v out : List Char} : declaration.Reads before u after v →
      Joined separator declaration (lastOf before (oneLine separator v)) after out →
      Joined separator declaration before (u ++ after) (oneLine separator v ++ out)
  | skip {before : Option Char} {c : Char} {s out : List Char} : declaration.Fails before (c :: s) →
      Joined separator declaration (some c) s out → Joined separator declaration before (c :: s) (c :: out)

variable {declaration : Pattern}

theorem Joined.relates {R : List Char → List Char → Prop} {separator : Char} {before : Option Char} {s out : List Char}
    (refl : ∀ s, R s s) (trans : ∀ {x y z}, R x y → R y z → R x z) (prepend : ∀ w {x y}, R x y → R (w ++ x) (w ++ y))
    (each : ∀ before u after v, declaration.Reads before u after v → R (u ++ after) (oneLine separator v ++ after))
    (joined : Joined separator declaration before s out) : R s out := by
  induction joined with
  | done => exact refl []
  | join reads _ ih => exact trans (each _ _ _ _ reads) (prepend _ ih)
  | @skip before c s out _ _ ih => exact prepend [c] ih

theorem joinFrom_joined (separator : Char) (advances : declaration.Advances) (bound : List Char) (c : Cursor)
    (enough : c.rest.length ≤ bound.length) :
    ∃ out, Joined separator declaration c.previous c.rest out ∧
      (joinFrom separator declaration bound c).text = c.written.reverse ++ out := by
  induction bound generalizing c with
  | nil =>
      have empty : c.rest = [] := by simpa using enough
      exact ⟨[], by rw [empty]; exact .done, by simp [joinFrom, Cursor.text, empty]⟩
  | cons b bound ih =>
      simp only [joinFrom]
      split
      · rename_i d found
        obtain ⟨u, after, v, taken, reads, rfl⟩ := Pattern.match_sound found
        have taken : c.rest = u ++ after := taken
        -- The text behind a declaration is shorter, so the rest of the bound is enough for it.
        have shorter : after.length < c.rest.length := by
          have := List.length_pos_iff.2 (advances _ _ _ _ reads)
          simp only [taken, List.length_append]
          omega
        obtain ⟨out, joined, text⟩ := ih ⟨(oneLine separator v).getLast?, after,
          (oneLine separator v).reverse ++ c.written⟩ (by simp only [List.length_cons] at enough ⊢; omega)
        refine ⟨oneLine separator v ++ out, ?_, by simpa [Pattern.moved] using text⟩
        rw [taken]
        refine .join reads ?_
        rw [lastOf_eq_getLast _ _ (by simp [oneLine])]
        exact joined
      · rename_i missing
        have fails : declaration.Fails c.previous c.rest := by
          rw [Pattern.match_none_iff] at missing
          exact missing
        cases text : c.rest with
        | nil =>
            obtain ⟨out, joined, here⟩ := ih c (by simp [text])
            refine ⟨out, by rwa [text] at joined, ?_⟩
            simpa [Cursor.forward, text] using here
        | cons x rest =>
            rw [text] at fails enough
            obtain ⟨out, joined, here⟩ := ih ⟨some x, rest, x :: c.written⟩
              (by simp only [List.length_cons] at enough ⊢; omega)
            exact ⟨x :: out, .skip fails joined, by simpa [Cursor.forward, text] using here⟩

theorem joinDeclarations_joined (separator : Char) (advances : declaration.Advances) (s : List Char) :
    Joined separator declaration none s (joinDeclarations separator declaration s) := by
  obtain ⟨out, joined, text⟩ := joinFrom_joined separator advances s (.ofText s) (by simp [Cursor.ofText])
  simp only [Cursor.ofText, List.reverse_nil, List.nil_append] at joined text
  rwa [joinDeclarations, Cursor.ofText, text]

end RuleSet

end SourceBundle
