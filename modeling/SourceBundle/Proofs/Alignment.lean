import SourceBundle.Proofs.Comments
import SourceBundle.Proofs.Pieces

/-!
Texts with the same ink. `Aligned` sets two such texts beside each other, gap by gap: a gap that is
closed stays closed and no line break is new. From it follows where the code of the two is the same.
-/

namespace SourceBundle.Text

/-- A stretch of spacing and what it becomes. -/
structure Gap (g g' : List Char) : Prop where
  spacing : Within isSpacing g
  spacing' : Within isSpacing g'
  newline : '\n' ∈ g' → '\n' ∈ g
  closed : g = [] → g' = []

/-- Two texts that differ in their gaps. Between two slashes a gap goes just where `D` holds of it and
of the text after the second slash; `o` is the ink in front. -/
inductive Aligned (D : List Char → List Char → Prop) : Option Char → List Char → List Char → Prop
  | last {o : Option Char} {g g' : List Char} (gap : Gap g g') : Aligned D o g g'
  | cell {o : Option Char} {c : Char} {g g' s s' : List Char} (gap : Gap g g')
      (solid : isSpacing c = false)
      (slashes : o = some '/' → c = '/' → g ≠ [] → (g' = [] ↔ D g s)) (later : Aligned D (some c) s s') :
      Aligned D o (g ++ c :: s) (g' ++ c :: s')

def CodeAhead (s : List Char) : Prop :=
  ∃ g c z, s = g ++ c :: z ∧ Within isSpacing g ∧ isSpacing c = false ∧
    isCommented false c z = false

/-- Every line break that ends a comment in front of code is there in the other text. -/
def KeepsBreaks (inside : Bool) (s s' : List Char) : Prop :=
  ∀ x y, s = x ++ '\n' :: y → inComment inside x = true → CodeAhead y →
    ∃ x' y', s' = x' ++ '\n' :: y' ∧ ink x' = ink x

/-- In the code of the text a gap between two slashes goes. -/
def FormsComment (D : List Char → List Char → Prop) (inside : Bool) (s : List Char) : Prop :=
  ∃ x g y, s = x ++ '/' :: (g ++ '/' :: y) ∧ Within isSpacing g ∧ g ≠ [] ∧ D g y ∧
    inComment inside (x ++ ['/']) = false

variable {D : List Char → List Char → Prop} {o : Option Char} {inside : Bool} {c d : Char}
  {g g' s s' x y : List Char}

theorem cell_split :
    g ++ c :: s = x ++ d :: y ↔
      (∃ z, g = x ++ d :: z ∧ y = z ++ c :: s) ∨ (x = g ∧ d = c ∧ y = s) ∨
        ∃ z, x = g ++ c :: z ∧ s = z ++ d :: y := by
  constructor
  · intro split
    rcases List.append_eq_append_iff.1 split with ⟨z, rfl, rest⟩ | ⟨z, rfl, rest⟩
    · cases z with
      | nil =>
          obtain ⟨rfl, rfl⟩ := List.cons.inj rest
          exact .inr (.inl ⟨by simp, rfl, rfl⟩)
      | cons e z =>
          obtain ⟨rfl, rfl⟩ := List.cons.inj rest
          exact .inr (.inr ⟨z, rfl, rfl⟩)
    · cases z with
      | nil =>
          obtain ⟨rfl, rfl⟩ := List.cons.inj rest
          exact .inr (.inl ⟨by simp, rfl, rfl⟩)
      | cons e z =>
          obtain ⟨rfl, rfl⟩ := List.cons.inj rest
          exact .inl ⟨z, rfl, rfl⟩
  · rintro (⟨z, rfl, rfl⟩ | ⟨rfl, rfl, rfl⟩ | ⟨z, rfl, rfl⟩) <;> simp

theorem isCommented_congr (same : s.head? = some '/' ↔ s'.head? = some '/') :
    isCommented inside c s = isCommented inside c s' := by
  have heads : (s.head? == some '/') = (s'.head? == some '/') := by
    rw [Bool.eq_iff_iff, beq_iff_eq, beq_iff_eq, same]
  rw [isCommented, isCommented, heads]

theorem inComment_cell (spacing : Within isSpacing g) :
    inComment inside (g ++ c :: s) = inComment (isCommented (afterGap inside g) c s) s := by
  rw [inComment_gap spacing, inComment]

theorem inComment_spacing (spacing : Within isSpacing g) : inComment inside g = afterGap inside g := by
  have gap : inComment inside (g ++ []) = inComment (afterGap inside g) [] := inComment_gap spacing
  simpa [inComment] using gap

theorem newline_spacing : isSpacing '\n' = true := by decide

theorem slash_solid : isSpacing '/' = false := by decide

theorem ink_cell (spacing : Within isSpacing g) (solid : isSpacing c = false) :
    ink (g ++ c :: s) = c :: ink s := by
  rw [ink_append, ink_eq_nil.2 spacing, List.nil_append, ink_cons_solid solid]

theorem codeAhead_gap (spacing : Within isSpacing g) (solid : isSpacing c = false) :
    CodeAhead (g ++ c :: s) ↔ isCommented false c s = false := by
  constructor
  · rintro ⟨g', d, z, split, spacing', solid', code⟩
    obtain ⟨rfl, rest⟩ := run_unique split spacing spacing' (by simpa using solid) (by simpa using solid')
    obtain ⟨rfl, rfl⟩ := List.cons.inj rest
    exact code
  · intro code
    exact ⟨g, c, s, rfl, spacing, solid, code⟩

theorem keepsBreaks_cell (gap : Gap g g') (solid : isSpacing c = false) :
    KeepsBreaks inside (g ++ c :: s) (g' ++ c :: s') ↔
      (inside = true → '\n' ∈ g → isCommented false c s = false → '\n' ∈ g') ∧
        KeepsBreaks (isCommented (afterGap inside g) c s) s s' := by
  have other : c ≠ '\n' := by
    rintro rfl
    exact absurd solid (by decide)
  -- A line break lies in the gap or behind the ink, and it is never the ink.
  constructor
  · intro keeps
    refine ⟨?_, ?_⟩
    · intro within present code
      obtain ⟨x, z, rfl, first⟩ := List.eq_append_cons_of_mem present
      have spacing := gap.spacing
      simp only [within_append, within_cons] at spacing
      obtain ⟨x', y', split, same⟩ := keeps x (z ++ c :: s) (by simp)
        (by rw [inComment_spacing spacing.1]; simp [afterGap, within, first])
        ((codeAhead_gap spacing.2.2 solid).2 code)
      rw [ink_eq_nil.2 spacing.1, ink_eq_nil] at same
      rcases cell_split.1 split with ⟨z', rfl, -⟩ | ⟨-, rfl, -⟩ | ⟨z', rfl, -⟩
      · simp
      · exact absurd rfl other
      · simp [solid] at same
    · intro x y split open' code
      have heads : (x ++ '\n' :: y).head? = some '/' ↔ x.head? = some '/' := by
        cases x <;> simp
      obtain ⟨x', y', split', same⟩ := keeps (g ++ c :: x) y (by simp [split])
        (by rw [inComment_cell gap.spacing, ← isCommented_congr heads, ← split, open']) code
      rw [ink_cell gap.spacing solid] at same
      rcases cell_split.1 split' with ⟨z', rfl, -⟩ | ⟨-, rfl, -⟩ | ⟨z', rfl, rest⟩
      · have spacing' := gap.spacing'
        rw [within_append] at spacing'
        simp [ink_eq_nil.2 spacing'.1] at same
      · exact absurd rfl other
      · rw [ink_cell gap.spacing' solid] at same
        exact ⟨z', y', rest, (List.cons.inj same).2⟩
  · rintro ⟨here, later⟩ x y split open' code
    rcases cell_split.1 split with ⟨z, rfl, rfl⟩ | ⟨-, rfl, -⟩ | ⟨z, rfl, rest⟩
    · have spacing := gap.spacing
      simp only [within_append, within_cons] at spacing
      rw [inComment_spacing spacing.1, afterGap, Bool.and_eq_true] at open'
      obtain ⟨x', z', rfl⟩ := List.append_of_mem
        (here open'.1 (by simp) ((codeAhead_gap spacing.2.2 solid).1 code))
      have spacing' := gap.spacing'
      rw [within_append] at spacing'
      exact ⟨x', z' ++ c :: s', by simp, by rw [ink_eq_nil.2 spacing'.1, ink_eq_nil.2 spacing.1]⟩
    · exact absurd rfl other
    · have heads : s.head? = some '/' ↔ z.head? = some '/' := by
        rw [rest]
        cases z <;> simp
      rw [inComment_cell gap.spacing, ← isCommented_congr heads] at open'
      obtain ⟨x', y', rfl, same⟩ := later z y rest open' code
      exact ⟨g' ++ c :: x', y', by simp, by rw [ink_cell gap.spacing solid, ink_cell gap.spacing' solid, same]⟩

theorem formsComment_cell (spacing : Within isSpacing g) :
    FormsComment D inside (g ++ c :: s) ↔
      (c = '/' ∧ afterGap inside g = false ∧ ∃ k y, s = k ++ '/' :: y ∧ Within isSpacing k ∧ k ≠ [] ∧
        D k y) ∨ FormsComment D (isCommented (afterGap inside g) c s) s := by
  have alone : inComment inside (g ++ ['/']) = afterGap inside g := by
    rw [inComment_cell spacing]
    simp [inComment, isCommented]
  constructor
  · rintro ⟨x, k, y, split, spacing', nonempty, closes, open'⟩
    rcases cell_split.1 split with ⟨z, rfl, -⟩ | ⟨rfl, rfl, rest⟩ | ⟨z, rfl, rest⟩
    · simp [slash_solid] at spacing
    · exact .inl ⟨rfl, alone ▸ open', k, y, rest.symm, spacing', nonempty, closes⟩
    · have heads : s.head? = some '/' ↔ (z ++ ['/']).head? = some '/' := by
        rw [rest]
        cases z <;> simp
      rw [List.append_assoc, List.cons_append, inComment_cell spacing, ← isCommented_congr heads]
        at open'
      exact .inr ⟨z, k, y, rest, spacing', nonempty, closes, open'⟩
  · rintro (⟨rfl, code, k, y, rfl, spacing', nonempty, closes⟩ |
      ⟨x, k, y, rfl, spacing', nonempty, closes, open'⟩)
    · exact ⟨g, k, y, rfl, spacing', nonempty, closes, alone.trans code⟩
    · have heads : (x ++ '/' :: (k ++ '/' :: y)).head? = some '/' ↔ (x ++ ['/']).head? = some '/' := by
        cases x <;> simp
      refine ⟨g ++ c :: x, k, y, by simp, spacing', nonempty, closes, ?_⟩
      rw [List.append_assoc, List.cons_append, inComment_cell spacing, ← isCommented_congr heads, open']

theorem keepsBreaks_spacing (spacing : Within isSpacing g) : KeepsBreaks inside g s' := by
  rintro x y rfl - ⟨k, c, z, rfl, -, solid, -⟩
  simp [solid] at spacing

theorem not_formsComment_spacing (spacing : Within isSpacing g) : ¬ FormsComment D inside g := by
  rintro ⟨x, k, y, rfl, -⟩
  simp [slash_solid] at spacing

theorem head_slash (spacing : Within isSpacing g) :
    (g ++ c :: s).head? = some '/' ↔ g = [] ∧ c = '/' := by
  cases g with
  | nil => simp
  | cons d g =>
      have slash : d ≠ '/' := by
        rintro rfl
        exact absurd (spacing '/' (by simp)) (by decide)
      simp [slash]

theorem head_spacing (spacing : Within isSpacing g) : g.head? ≠ some '/' := by
  intro next
  exact absurd (spacing '/' (List.mem_of_mem_head? next)) (by decide)

theorem Aligned.slash (aligned : Aligned D o s s') (next : s.head? = some '/') :
    s'.head? = some '/' := by
  cases aligned with
  | last gap => exact absurd next (head_spacing gap.spacing)
  | cell gap solid slashes later =>
      obtain ⟨rfl, rfl⟩ := (head_slash gap.spacing).1 next
      exact (head_slash gap.spacing').2 ⟨gap.closed rfl, rfl⟩

theorem Aligned.new_slash (aligned : Aligned D (some '/') s s') (apart : s.head? ≠ some '/') :
    s'.head? = some '/' ↔ ∃ k y, s = k ++ '/' :: y ∧ Within isSpacing k ∧ k ≠ [] ∧ D k y := by
  cases aligned with
  | last gap =>
      refine iff_of_false (head_spacing gap.spacing') ?_
      rintro ⟨k, y, rfl, -⟩
      exact absurd (gap.spacing '/' (by simp)) (by decide)
  | @cell _ c g g' s s' gap solid slashes later =>
      rw [head_slash gap.spacing']
      constructor
      · rintro ⟨rfl, rfl⟩
        have nonempty : g ≠ [] := fun empty => apart ((head_slash gap.spacing).2 ⟨empty, rfl⟩)
        exact ⟨g, s, rfl, gap.spacing, nonempty, (slashes rfl rfl nonempty).1 rfl⟩
      · rintro ⟨k, y, split, spacing, nonempty, closes⟩
        obtain ⟨rfl, rest⟩ := run_unique split gap.spacing spacing (by simpa using solid)
          (by simpa using slash_solid)
        obtain ⟨rfl, rfl⟩ := List.cons.inj rest
        exact ⟨(slashes rfl rfl nonempty).2 closes, rfl⟩

theorem isCommented_solid (solid : isSpacing c = false) :
    isCommented inside c s = true ↔ inside = true ∨ c = '/' ∧ s.head? = some '/' := by
  have other : (c != '\n') = true := by
    rw [bne_iff_ne]
    rintro rfl
    exact absurd solid (by decide)
  simp [isCommented, other]

theorem afterGap_mono (gap : Gap g g') {inside' : Bool} (deeper : inside = true → inside' = true)
    (here : afterGap inside g = true) : afterGap inside' g' = true := by
  simp only [afterGap, Bool.and_eq_true, Bool.not_eq_true', List.contains_eq_mem, decide_eq_false_iff_not]
    at here ⊢
  exact ⟨deeper here.1, fun present => here.2 (gap.newline present)⟩

theorem Aligned.isCommented_mono (aligned : Aligned D o s s') (solid : isSpacing c = false)
    {inside' : Bool} (deeper : inside = true → inside' = true)
    (here : isCommented inside c s = true) : isCommented inside' c s' = true := by
  rw [isCommented_solid solid] at here ⊢
  exact here.imp deeper fun ⟨slash, next⟩ => ⟨slash, aligned.slash next⟩

theorem Aligned.length_codeInk_le (aligned : Aligned D o s s') {inside' : Bool}
    (deeper : inside = true → inside' = true) :
    (codeInk inside' s').length ≤ (codeInk inside s).length := by
  induction aligned generalizing inside inside' with
  | last gap =>
      simp [codeInk_spacing gap.spacing']
  | @cell o c g g' s s' gap solid slashes later ih =>
      rw [codeInk_gap gap.spacing, codeInk_gap gap.spacing']
      have deeper := afterGap_mono gap deeper
      cases here : isCommented (afterGap inside g) c s with
      | true =>
          have there := later.isCommented_mono solid deeper here
          rw [codeInk_cons_commented here, codeInk_cons_commented there]
          exact ih id
      | false =>
          rw [codeInk_cons_code solid here, List.length_cons]
          cases there : isCommented (afterGap inside' g') c s' with
          | true =>
              rw [codeInk_cons_commented there]
              exact le_trans (ih (by simp)) (Nat.le_succ _)
          | false =>
              rw [codeInk_cons_code solid there, List.length_cons]
              exact Nat.succ_le_succ (ih id)

theorem afterGap_eq_false : afterGap inside g = false ↔ (inside = true → '\n' ∈ g) := by
  cases inside <;> simp [afterGap]

/-- The code of two aligned texts is the same exactly where every line break that ends a comment is kept
and no comment is formed. -/
theorem Aligned.codeInk_eq_iff (aligned : Aligned D o s s') :
    codeInk inside s' = codeInk inside s ↔ KeepsBreaks inside s s' ∧ ¬ FormsComment D inside s := by
  induction aligned generalizing inside with
  | last gap =>
      exact iff_of_true ((codeInk_spacing gap.spacing').trans (codeInk_spacing gap.spacing).symm)
        ⟨keepsBreaks_spacing gap.spacing, not_formsComment_spacing gap.spacing⟩
  | @cell o c g g' s s' gap solid slashes later ih =>
      rw [codeInk_gap gap.spacing, codeInk_gap gap.spacing', keepsBreaks_cell gap solid,
        formsComment_cell gap.spacing, not_or]
      have open' : afterGap inside g = true → afterGap inside g' = true := afterGap_mono gap id
      cases here : isCommented (afterGap inside g) c s with
      | true =>
          -- The ink is in a comment in both texts.
          have there := later.isCommented_mono solid open' here
          have kept : inside = true → '\n' ∈ g → isCommented false c s = false → '\n' ∈ g' := by
            intro _ broken code
            rw [afterGap_eq_false.2 fun _ => broken, code] at here
            exact absurd here (by simp)
          have formed : ¬ (c = '/' ∧ afterGap inside g = false ∧
              ∃ k y, s = k ++ '/' :: y ∧ Within isSpacing k ∧ k ≠ [] ∧ D k y) := by
            rintro ⟨-, code, k, y, rfl, spacing, nonempty, -⟩
            rw [code, isCommented_solid solid] at here
            rcases here with within | ⟨-, next⟩
            · simp at within
            · exact nonempty ((head_slash spacing).1 next).1
          rw [codeInk_cons_commented here, codeInk_cons_commented there, ih, and_iff_right kept,
            and_iff_right formed]
      | false =>
          rw [codeInk_cons_code solid here]
          have outside : afterGap inside g = false ∧ (c = '/' → s.head? ≠ some '/') := by
            rw [← Bool.not_eq_true, isCommented_solid solid, not_or, not_and, Bool.not_eq_true] at here
            exact here
          cases there : isCommented (afterGap inside g') c s' with
          | true =>
              -- The ink is lost: its line has been joined to a comment, or starts one now.
              have fewer : (codeInk true s').length ≤ (codeInk false s).length :=
                later.length_codeInk_le (by simp)
              rw [codeInk_cons_commented there]
              refine iff_of_false (fun same => ?_) ?_
              · rw [same, List.length_cons] at fewer
                omega
              · rintro ⟨⟨kept, -⟩, formed, -⟩
                rcases (isCommented_solid solid).1 there with within | ⟨rfl, next⟩
                · simp only [afterGap, Bool.and_eq_true, Bool.not_eq_true', List.contains_eq_mem,
                    decide_eq_false_iff_not] at within
                  rw [outside.1] at here
                  exact within.2 (kept within.1 (afterGap_eq_false.1 outside.1 within.1) here)
                · exact formed ⟨rfl, outside.1, (later.new_slash (outside.2 rfl)).1 next⟩
          | false =>
              rw [codeInk_cons_code solid there, List.cons_inj_right, ih]
              rw [← Bool.not_eq_true, isCommented_solid solid, not_or, not_and, Bool.not_eq_true] at there
              have kept : inside = true → '\n' ∈ g → isCommented false c s = false → '\n' ∈ g' :=
                fun within _ _ => afterGap_eq_false.1 there.1 within
              have formed : ¬ (c = '/' ∧ afterGap inside g = false ∧
                  ∃ k y, s = k ++ '/' :: y ∧ Within isSpacing k ∧ k ≠ [] ∧ D k y) := by
                rintro ⟨rfl, -, closes⟩
                exact there.2 rfl ((later.new_slash (outside.2 rfl)).2 closes)
              rw [and_iff_right kept, and_iff_right formed]

theorem Gap.refl (spacing : Within isSpacing g) : Gap g g := ⟨spacing, spacing, id, id⟩

theorem Gap.trans {g'' : List Char} (first : Gap g g') (second : Gap g' g'') : Gap g g'' :=
  ⟨first.spacing, second.spacing', fun present => first.newline (second.newline present),
    fun empty => second.closed (first.closed empty)⟩

theorem Gap.append {k k' : List Char} (first : Gap g g') (second : Gap k k') :
    Gap (g ++ k) (g' ++ k') := by
  refine ⟨by simp [first.spacing, second.spacing], by simp [first.spacing', second.spacing'], ?_, ?_⟩
  · simp only [List.mem_append]
    exact Or.imp first.newline second.newline
  · simp only [List.append_eq_nil_iff]
    exact fun empty => ⟨first.closed empty.1, second.closed empty.2⟩

theorem Aligned.of_spacing {t : List Char} (aligned : Aligned D o g t) (spacing : Within isSpacing g) :
    Gap g t := by
  cases aligned with
  | last gap => exact gap
  | cell gap solid => simp [solid] at spacing

theorem Aligned.of_cell {t : List Char} (aligned : Aligned D o (g ++ c :: s) t)
    (spacing : Within isSpacing g) (solid : isSpacing c = false) :
    ∃ g' s', t = g' ++ c :: s' ∧ Gap g g' ∧ (o = some '/' → c = '/' → g ≠ [] → (g' = [] ↔ D g s)) ∧
      Aligned D (some c) s s' := by
  generalize text : g ++ c :: s = z at aligned
  cases aligned with
  | last gap =>
      have inside := gap.spacing
      simp [← text, solid] at inside
  | cell gap solid' slashes later =>
      obtain ⟨rfl, rest⟩ := run_unique text spacing gap.spacing (by simpa using solid)
        (by simpa using solid')
      obtain ⟨rfl, rfl⟩ := List.cons.inj rest
      exact ⟨_, _, rfl, gap, slashes, later⟩

/-- Two texts of which neither has a gap between slashes that goes. -/
abbrev Steady : Option Char → List Char → List Char → Prop := Aligned fun _ _ => False

theorem Aligned.trans {s'' : List Char} (first : Aligned D o s s') (second : Steady o s' s'') :
    Aligned D o s s'' := by
  induction first generalizing s'' with
  | last gap => exact .last (gap.trans (second.of_spacing gap.spacing'))
  | @cell o c g g' s s' gap solid slashes later ih =>
      obtain ⟨k, t, rfl, gap', slashes', later'⟩ := second.of_cell gap.spacing' solid
      refine .cell (gap.trans gap') solid ?_ (ih later')
      intro before slash nonempty
      rw [← slashes before slash nonempty]
      by_cases empty : g' = []
      · exact iff_of_true (gap'.closed empty) empty
      · exact iff_of_false (fun gone => (slashes' before slash empty).1 gone) empty

theorem Aligned.cons_solid (solid : isSpacing c = false) (later : Aligned D (some c) s s') :
    Aligned D o (c :: s) (c :: s') := by
  have cell : Aligned D o ([] ++ c :: s) ([] ++ c :: s') := .cell (.refl (by simp)) solid (by simp) later
  exact cell

theorem Steady.cons_spacing (spacing : isSpacing c = true) (steady : Steady o s s') :
    Steady o (c :: s) (c :: s') := by
  have front : Gap [c] [c] := .refl (by simpa using spacing)
  cases steady with
  | last gap => exact .last (front.append gap)
  | cell gap solid slashes later => exact .cell (front.append gap) solid (by simp) later

def lastInk (o : Option Char) (x : List Char) : Option Char := lastOf o (ink x)

theorem Steady.prepend (x : List Char) (steady : Steady (lastInk o x) s s') :
    Steady o (x ++ s) (x ++ s') := by
  induction x generalizing o with
  | nil => exact steady
  | cons c x ih =>
      cases spacing : isSpacing c with
      | true => exact .cons_spacing spacing (ih (by simpa [lastInk, ink_cons_spacing spacing] using steady))
      | false => exact .cons_solid spacing (ih (by simpa [lastInk, ink_cons_solid spacing] using steady))

theorem Steady.refl (s : List Char) : Steady o s s := by
  have steady : Steady o (s ++ []) (s ++ []) := .prepend s (.last (.refl (by simp)))
  simpa using steady

theorem Steady.of_gap (gap : Gap g g')
    (seam : o = some '/' → y.head? = some '/' → g ≠ [] → g' ≠ []) : Steady o (g ++ y) (g' ++ y) := by
  obtain ⟨k, y, rfl, spacing, stops⟩ := exists_run isSpacing y
  have wider := gap.append (.refl spacing)
  rw [← List.append_assoc, ← List.append_assoc]
  cases y with
  | nil => simpa using Aligned.last wider
  | cons c y =>
      refine .cell wider (by simpa using stops) ?_ (Steady.refl y)
      rintro before rfl nonempty
      rw [iff_false, List.append_eq_nil_iff]
      rintro ⟨gone, rfl⟩
      exact seam before (by simp) (by simpa using nonempty) gone

theorem steady_of_change {marks : List String} {ends : Char → Bool} {h : List Char}
    (outside : ∀ mark ∈ marks, Outside (· == '/') mark.toList) (change : Change marks ends x g h y) :
    Steady none (x ++ g ++ y) (x ++ h ++ y) := by
  have gap : Gap g h := ⟨change.spacing, change.spacing', fun written =>
    absurd written change.newline_not_mem, fun empty => absurd empty change.nonempty⟩
  obtain ⟨x, k, rfl, spacing, last⟩ := exists_run_end isSpacing x
  simp only [List.append_assoc]
  refine .prepend x ?_
  rw [← List.append_assoc, ← List.append_assoc]
  refine .of_gap ((Gap.refl spacing).append gap) ?_
  intro before next _ gone
  obtain ⟨rfl, rfl⟩ := List.append_eq_nil_iff.1 gone
  have seam := seam_of_beside outside change.beside
  rw [List.append_nil] at seam
  rcases List.eq_nil_or_concat x with rfl | ⟨x, c, rfl⟩
  · simp [lastInk] at before
  · have solid : isSpacing c = false := last c (by simp)
    obtain rfl : c = '/' := by simpa [lastInk, ink_cons_solid solid] using before
    simpa using seam '/' (by simp) '/' (by simpa using next)

theorem steady_of_respaced {marks : List String} {ends : Char → Bool}
    (outside : ∀ mark ∈ marks, Outside (· == '/') mark.toList) (respaced : Respaced marks ends s s') :
    Steady none s s' :=
  respaced.keeps (fun _ _ _ _ change here => here.trans (steady_of_change outside change)) (Steady.refl s)

end SourceBundle.Text
