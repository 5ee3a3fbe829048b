import SourceBundle.Proofs.Production.Neighbours

/-!
What the sweeps of the rules about marks and operators leave behind: nothing that they would read again.
-/

namespace SourceBundle.Swift

open Pattern Text

variable {p : Pattern} {s u after v out : List Char} {before o : Option Char} {m : Char}

theorem swept_noneAfter {q : Char → Bool} (mark : q m = false)
    (writes : ∀ before u after v, p.Reads before u after v → v = [m])
    (closes : ∀ before u after v, p.Reads before u after v → SeparatorsLead before (u ++ after) →
      Stops q after)
    (taken : ∀ before s, ¬ Stops q s → ¬ Fails p before (m :: s))
    (swept : Swept p before s out) (leads : SeparatorsLead before s) (start : o = some m → Stops q s) :
    NoneAfter m q o out := by
  induction swept generalizing o with
  | done => exact throughout_nil.2 fun _ => stops_nil q
  | @step before u after v out reads nonempty later ih =>
      rw [writes _ _ _ _ reads]
      exact throughout_cons.2 ⟨fun _ => (stops_cons _ _ _).2 mark,
        ih leads.suffix fun _ => closes _ _ _ _ reads leads⟩
  | @skip before c s out fails later ih =>
      refine throughout_cons.2 ⟨fun last => by simpa using start last, ih (throughout_cons.1 leads).2 fun same => ?_⟩
      rw [Option.some.injEq] at same
      subst same
      exact Classical.byContradiction fun more => taken before s more fails

theorem swept_noBlankBefore (solid : isBlank m = false)
    (writes : ∀ before u after v, p.Reads before u after v →
      v = [m] ∧ ∃ g h, u = g ++ m :: h ∧ Within isBlank g)
    (taken : ∀ before g s, Within isBlank g → g ≠ [] → ¬ Fails p before (g ++ m :: s))
    (swept : Swept p before s out)
    (start : AfterBlank o → ∀ g z, s = g ++ m :: z → ¬ Within isBlank g) : NoBlankBefore m o out := by
  induction swept generalizing o with
  | done => exact throughout_nil.2 fun _ => stops_nil _
  | @step before u after v out reads nonempty later ih =>
      obtain ⟨rfl, g, h, rfl, blank⟩ := writes _ _ _ _ reads
      refine throughout_cons.2 ⟨fun after' => ?_, ih fun after' => ?_⟩
      · exact absurd blank (start after' g (h ++ after) (by simp))
      · rw [afterBlank_some, solid] at after'
        exact absurd after' Bool.false_ne_true
  | @skip before c s out fails later ih =>
      refine throughout_cons.2 ⟨fun after' => ?_, ih fun after' g z split blank => ?_⟩
      · rw [stops_cons, beq_eq_false_iff_ne]
        rintro rfl
        exact start after' [] s rfl (within_nil _)
      · subst split
        rw [afterBlank_some] at after'
        exact taken before (c :: g) z (by simp [after', blank]) (by simp) (by simpa using fails)

theorem blanksAfter_swept {mark : String} (spelled : mark.toList = [m]) (solid : isBlank m = false)
    (swept : Swept (blanksAfter mark) none s out) (leads : SeparatorsLead none s) :
    NoneAfter m isBlank none out := by
  refine swept_noneAfter solid ?_ ?_ ?_ swept leads (by simp)
  · intro before u after v reads
    obtain ⟨g, -, rfl, -⟩ := reads_blanksAfter.1 reads
    exact spelled
  · intro before u after v reads _
    obtain ⟨g, -, -, -, -, stops⟩ := reads_blanksAfter.1 reads
    exact stops
  · intro before s more fails
    obtain ⟨g, z, rfl, blank, stops⟩ := exists_run isBlank s
    refine fails (m :: g) z [m] rfl (reads_blanksAfter.2 ⟨g, by simp [spelled], spelled.symm, blank, ?_,
      stops⟩)
    rintro rfl
    exact more stops

theorem NoneAfter.eq_nil {x g y : List Char} (settled : NoneAfter m isBlank none (x ++ m :: (g ++ y)))
    (blank : Within isBlank g) : g = [] := by
  cases g with
  | nil => rfl
  | cons c g =>
      have stops := settled (x ++ [m]) (c :: g ++ y) (by simp) (by simp)
      rw [within_cons] at blank
      simp [blank.1] at stops

theorem blanksAfter_eq_self {mark : String} (spelled : mark.toList = [m])
    (settled : NoneAfter m isBlank none s) : (blanksAfter mark).rewrite s = s := by
  refine rewrite_eq_self blanksAfter_advances ?_
  rintro x u after v rfl reads
  obtain ⟨g, rfl, rfl, blank, nonempty, -⟩ := reads_blanksAfter.1 reads
  exact absurd (NoneAfter.eq_nil (x := x) (y := after) (by simpa [spelled] using settled) blank) nonempty

theorem closeBrace_swept (swept : Swept closeBrace none s out) : NoBlankBefore '\x7d' none out := by
  refine swept_noBlankBefore (by decide) ?_ ?_ swept (by simp)
  · intro before u after v reads
    obtain ⟨g, rfl, rfl, blank, -⟩ := reads_closeBrace.1 reads
    exact ⟨rfl, g, [], rfl, blank⟩
  · intro before g s blank nonempty fails
    exact fails (g ++ ['\x7d']) s ['\x7d'] (by simp) (reads_closeBrace.2 ⟨g, rfl, rfl, blank, nonempty⟩)

theorem NoBlankBefore.eq_nil {x g y : List Char} {m : Char}
    (settled : NoBlankBefore m none (x ++ (g ++ m :: y))) (blank : Within isBlank g) : g = [] := by
  by_contra nonempty
  obtain ⟨g, c, rfl⟩ := (List.eq_nil_or_concat g).resolve_left nonempty
  simp only [List.concat_eq_append, within_append, within_cons] at blank
  have stops := settled (x ++ (g ++ [c])) (m :: y) (by simp) (by simpa using blank.2.1)
  simp at stops

theorem closeBrace_eq_self (settled : NoBlankBefore '\x7d' none s) : closeBrace.rewrite s = s := by
  refine rewrite_eq_self closeBrace_advances ?_
  rintro x u after v rfl reads
  obtain ⟨g, rfl, rfl, blank, nonempty⟩ := reads_closeBrace.1 reads
  exact absurd (NoBlankBefore.eq_nil (x := x) (y := after) (by simpa using settled) blank) nonempty

theorem colonSpace_swept (swept : Swept colonSpace none s out) (leads : SeparatorsLead none s) :
    NoBlankBefore ':' none out ∧ NoneAfter ':' isBlank none out := by
  constructor
  · refine swept_noBlankBefore (by decide) ?_ ?_ swept (by simp)
    · intro before u after v reads
      obtain ⟨g, h, rfl, rfl, blank, -⟩ := reads_colonSpace.1 reads
      exact ⟨rfl, g, h, rfl, blank⟩
    · intro before g s blank nonempty fails
      obtain ⟨h, z, rfl, blank', stops⟩ := exists_run isBlank s
      exact fails (g ++ ':' :: h) z [':'] (by simp) (reads_colonSpace.2 ⟨g, h, rfl, rfl, blank, blank', stops⟩)
  · refine swept_noneAfter (by decide) ?_ ?_ ?_ swept leads (by simp)
    · intro before u after v reads
      obtain ⟨g, h, -, rfl, -⟩ := reads_colonSpace.1 reads
      rfl
    · intro before u after v reads _
      obtain ⟨g, h, -, -, -, -, stops⟩ := reads_colonSpace.1 reads
      exact stops
    · intro before s more fails
      obtain ⟨h, z, rfl, blank, stops⟩ := exists_run isBlank s
      exact fails (':' :: h) z [':'] rfl (reads_colonSpace.2 ⟨[], h, rfl, rfl, by simp, blank, stops⟩)

theorem colonSpace_eq_self (left : NoBlankBefore ':' none s) (right : NoneAfter ':' isBlank none s) :
    colonSpace.rewrite s = s := by
  refine rewrite_eq_self colonSpace_advances ?_
  rintro x u after v rfl reads
  obtain ⟨g, h, rfl, rfl, blank, blank', -⟩ := reads_colonSpace.1 reads
  obtain rfl := NoBlankBefore.eq_nil (x := x) (y := h ++ after) (by simpa using left) blank
  obtain rfl := NoneAfter.eq_nil (x := x) (y := after) (by simpa using right) blank'
  rfl

theorem separatorAfter_swept {mark : String} {m : Char} (spelled : mark.toList = [m]) (other : m ≠ ';')
    (swept : Swept (separatorAfter mark) none s out) (leads : SeparatorsLead none s) :
    NoneAfter m (· == ';') none out := by
  refine swept_noneAfter (by simpa using other) ?_ ?_ ?_ swept leads (by simp)
  · intro before u after v reads
    rw [(reads_separatorAfter.1 reads).2, spelled]
  · intro before u after v reads leads
    obtain ⟨rfl, -⟩ := reads_separatorAfter.1 reads
    exact (leads (mark.toList ++ [';']) after rfl (by simp [AfterSeparator])).stops (by decide)
  · intro before s more fails
    have next : ∃ z, s = ';' :: z := by
      cases s with
      | nil => exact absurd (stops_nil _) more
      | cons c s =>
          rw [stops_cons, Bool.not_eq_false, beq_iff_eq] at more
          exact ⟨s, by rw [more]⟩
    obtain ⟨z, rfl⟩ := next
    exact fails [m, ';'] z [m] rfl (reads_separatorAfter.2 ⟨by simp [spelled], spelled.symm⟩)

theorem separatorAfter_eq_self {mark : String} {m : Char} (spelled : mark.toList = [m])
    (settled : NoneAfter m (· == ';') none s) : (separatorAfter mark).rewrite s = s := by
  refine rewrite_eq_self separatorAfter_advances ?_
  rintro x u after v rfl reads
  obtain ⟨rfl, -⟩ := reads_separatorAfter.1 reads
  have stops := settled (x ++ [m]) (';' :: after) (by simp [spelled]) (by simp)
  simp at stops

def Tight (k : List Char) (_ : Option Char) : Prop := k = []

def NoneInside (operators inner : List String) : Prop :=
  ∀ operator ∈ operators, ∀ part ∈ inner, ¬ part.toList <:+: operator.toList.tail.dropLast

instance (operators inner : List String) : Decidable (NoneInside operators inner) :=
  inferInstanceAs (Decidable (∀ operator ∈ operators, _))

variable {operators inner words : List String}

theorem isBlank_of_isPlain {c : Char} (plain : isPlain c = true) : isBlank c = false := by
  have spacing := isSpacing_of_isPlain plain
  simp only [isSpacing, Bool.or_eq_false_iff] at spacing
  exact spacing.1

theorem PlainWords.stops_isBlank (plain : PlainWords words) {word : String} (member : word ∈ words) :
    Stops isBlank (word.toList ++ s) := by
  obtain ⟨c, w, spelled, solid⟩ := plain.head member
  rw [spelled, List.cons_append, stops_cons]
  exact isBlank_of_isPlain solid

theorem tightOperator_writes (filled : inner ≠ []) (plain : PlainWords inner) :
    (tightOperator inner).Writes isPlain := by
  intro before u after v reads
  obtain ⟨g, operator, h, member, -, rfl, -⟩ := (reads_tightOperator filled).1 reads
  obtain ⟨c, w, spelled, solid⟩ := plain.head member
  exact ⟨c, w, spelled, solid⟩

theorem not_inside (none : NoneInside operators inner) {operator part : String} (member : operator ∈ operators)
    (member' : part ∈ inner) {a b : List Char} (filled : a ≠ []) (filled' : b ≠ []) :
    operator.toList ≠ a ++ (part.toList ++ b) := by
  intro spelled
  refine none operator member part member' ?_
  obtain ⟨c, a, rfl⟩ := List.exists_cons_of_ne_nil filled
  obtain ⟨b, d, rfl⟩ := (List.eq_nil_or_concat b).resolve_left filled'
  refine ⟨a, b, ?_⟩
  rw [spelled, List.cons_append, List.tail_cons, List.concat_eq_append, ← List.append_assoc,
    ← List.append_assoc, List.dropLast_concat]

theorem trailed_copied (filled : inner ≠ []) (plain : PlainWords inner) (none : NoneInside operators inner)
    {c : Char} (blank : isBlank c = true) (fails : Fails (tightOperator inner) before (c :: s))
    (swept : Swept (tightOperator inner) (some c) s out) (known : Trailed operators Tight s) :
    Trailed operators Tight out := by
  have writes := tightOperator_writes filled plain
  intro operator member k z split within stops
  by_contra nonempty
  subst split
  rcases swept.cases_append with ⟨rest, rfl, later⟩ | ⟨w₁, w₂, u, after, v, out, spelled, open', rfl, split,
    reads, later⟩
  · obtain ⟨rest, rfl, -⟩ := later.copied (writes.quiet (fun _ => isBlank_of_isPlain) fun _ => True)
      (fun _ _ => trivial) trivial within
    obtain ⟨r, rest, rfl, within', stops'⟩ := exists_run isBlank rest
    have empty := known operator member (k ++ r) rest (by simp) (by simp [within, within']) stops'
    exact nonempty (List.append_eq_nil_iff.1 empty).1
  · obtain ⟨g, part, h, member', rfl, rfl, within', nonempty', stops', within'', nonempty'', stops''⟩ :=
      (reads_tightOperator filled).1 reads
    have closed : k ++ z ≠ out := by
      rintro rfl
      have stops := later.stops writes (fun _ => isBlank_of_isPlain) stops''
      obtain ⟨d, k, rfl⟩ := List.exists_cons_of_ne_nil nonempty
      rw [List.cons_append, stops_cons, within d (by simp)] at stops
      exact absurd stops (by simp)
    by_cases first : w₁ = []
    · subst first
      -- The blank that is copied would have been read as well.
      refine fails (c :: g ++ part.toList ++ h) after part.toList (by simp) ?_
      exact (reads_tightOperator filled).2 ⟨c :: g, part, h, member', rfl, rfl, by simp [blank, within'],
        by simp, stops', within'', nonempty'', stops''⟩
    · rcases List.append_eq_append_iff.1 split with ⟨a, spelled', rest⟩ | ⟨a, rfl, rest⟩
      · cases a with
        | nil => exact closed rest
        | cons d a =>
            have inside := (plain part member').2 d (by simp [spelled'])
            have blank' := within.head nonempty rest
            simp [isBlank_of_isPlain inside] at blank'
      · by_cases last : a = []
        · subst last
          exact closed (by simpa using rest.symm)
        · exact not_inside none member member' first last spelled

/-- The sweep for a list of operators leaves none of them between blanks, nor any other operator that had
not been left so. -/
theorem swept_tight (filled : inner ≠ []) (plain : PlainWords inner) (none : NoneInside operators inner)
    (swept : Swept (tightOperator inner) before s out)
    (known : operators = inner ∨ Throughout AfterBlank (Trailed operators Tight) before s)
    (start : AfterBlank o → Trailed operators Tight out) :
    Throughout AfterBlank (Trailed operators Tight) o out := by
  induction swept generalizing o with
  | done => exact throughout_nil.2 start
  | @step before u after v out reads nonempty later ih =>
      obtain ⟨g, part, h, member, rfl, rfl, -⟩ := (reads_tightOperator filled).1 reads
      have solid : ∀ c ∈ part.toList, ¬ AfterBlank (some c) := by
        intro c inside
        simp [isBlank_of_isPlain ((plain part member).2 c inside)]
      refine (throughout_append_of (plain part member).1 solid).2 ⟨start, ih (known.imp_right fun every =>
        every.suffix) fun blank => ?_⟩
      obtain ⟨w, c, spelled⟩ := (List.eq_nil_or_concat part.toList).resolve_left (plain part member).1
      rw [spelled, List.concat_eq_append, lastOf_append, lastOf_cons, lastOf_nil] at blank
      exact absurd blank (solid c (by simp [spelled]))
  | @skip before c s out fails later ih =>
      refine throughout_cons.2 ⟨start, ih (known.imp_right fun every => (throughout_cons.1 every).2)
        fun blank => ?_⟩
      rw [afterBlank_some] at blank
      refine trailed_copied filled plain none blank fails later ?_
      rcases known with rfl | every
      · intro operator member k z split within stops
        by_contra nonempty
        refine fails ([c] ++ operator.toList ++ k) z operator.toList (by simp [split]) ?_
        exact (reads_tightOperator filled).2 ⟨[c], operator, k, member, rfl, rfl, by simp [blank], by simp,
          by simpa using plain.stops_isBlank member, within, nonempty, stops⟩
      · exact every [c] s rfl (by simpa using blank)

theorem tightOperator_eq_self (filled : operators ≠ [])
    (settled : Throughout AfterBlank (Trailed operators Tight) none s) :
    (tightOperator operators).rewrite s = s := by
  refine rewrite_eq_self (tightOperator_advances _) ?_
  rintro x u after v rfl reads
  obtain ⟨g, operator, h, member, rfl, rfl, blank, nonempty, -, blank', nonempty', stops⟩ :=
    (reads_tightOperator filled).1 reads
  obtain ⟨g, c, rfl⟩ := (List.eq_nil_or_concat g).resolve_left nonempty
  simp only [List.concat_eq_append, within_append, within_cons] at blank
  exact absurd (settled (x ++ (g ++ [c])) (operator.toList ++ (h ++ after)) (by simp)
    (by simpa using blank.2.1) operator member h after rfl blank' stops) nonempty'

end SourceBundle.Swift
