import SourceBundle.Proofs.Alignment
import SourceBundle.Proofs.Lines
import SourceBundle.Proofs.Production.Cleanup

/-!
What the production profile does to the code of a text, line comments apart. A comment that no removal
takes goes up to its line break, so code is lost where a replacement takes the line break, and where
two slashes are brought together.
-/

namespace SourceBundle.Swift

open Pattern Text

variable {before o : Option Char} {s out u after v g k k' l : List Char} {inside : Bool}

def RemovesNoCode (p : Pattern) : Prop :=
  ∀ before u after v inside, p.Reads before u after v → (OpensLine before → inside = false) →
    v = [] ∧ codeInk inside (u ++ after) = codeInk inside after ∧
      (OpensLine (lastOf before u) → inside = false)

def KeepsSlashes (p : Pattern) : Prop :=
  ∀ s out, Swept p (some '/') s out → (out.head? = some '/' ↔ s.head? = some '/')

theorem isCommented_swept {p : Pattern} (keeps : KeepsSlashes p) {c : Char}
    (swept : Swept p (some c) s out) : isCommented inside c out = isCommented inside c s := by
  by_cases slash : c = '/'
  · subst slash
    exact isCommented_congr (keeps s out swept)
  · simp [isCommented, beq_false_of_ne slash]

theorem codeInk_removed {p : Pattern} (removes : RemovesNoCode p) (keeps : KeepsSlashes p)
    (swept : Swept p before s out) (start : OpensLine before → inside = false) :
    codeInk inside out = codeInk inside s := by
  induction swept generalizing inside with
  | done => rfl
  | step reads nonempty later ih =>
      obtain ⟨rfl, same, onward⟩ := removes _ _ _ _ inside reads start
      rw [List.nil_append, same, ih onward]
  | @skip before c s out fails later ih =>
      have next : isCommented inside c out = isCommented inside c s := isCommented_swept keeps later
      rw [codeInk_cons, codeInk_cons, next, ih]
      rw [opensLine_some]
      rintro rfl
      simp [isCommented]

theorem keepsSlashes_of_lineStart {p : Pattern}
    (starts : ∀ before u after v, p.Reads before u after v → OpensLine before) : KeepsSlashes p := by
  intro s out swept
  cases s with
  | nil => rw [swept.eq_nil]
  | cons c s =>
      obtain ⟨rest, rfl, -⟩ := swept.copies fun u after v _ reads => by
        simpa using starts _ _ _ _ reads
      simp

theorem wholeLine_keepsSlashes {mark : String} (starts : Stops isInlineBlank mark.toList)
    (filled : mark.toList ≠ []) : KeepsSlashes (wholeLine mark) := by
  refine keepsSlashes_of_lineStart fun before u after v reads => ?_
  obtain ⟨g, r, e, -, -, opens, -⟩ := (reads_wholeLine mark starts filled).1 reads
  exact opens

theorem leadingBlanks_keepsSlashes : KeepsSlashes leadingBlanks :=
  keepsSlashes_of_lineStart fun _ _ _ _ reads => (reads_leadingBlanks.1 reads).2.1

theorem trailingComment_keepsSlashes : KeepsSlashes trailingComment := by
  intro s out swept
  cases s with
  | nil => rw [swept.eq_nil]
  | cons c s =>
      rcases swept.cases_cons with ⟨u, after, v, rest, split, rfl, reads, -, later⟩ | ⟨-, rest, rfl, -⟩
      · obtain ⟨g, r, rfl, rfl, blank, nonempty, -, stops⟩ := reads_trailingComment.1 reads
        have inline := blank.head nonempty (by simpa using split.symm)
        have stops := trailingComments_stops later stops
        constructor
        · intro next
          obtain ⟨z, rfl⟩ := List.head?_eq_some_iff.1 next
          simp [isInline] at stops
        · intro next
          obtain rfl : c = '/' := by simpa using next
          exact absurd inline (by decide)
      · simp

theorem wholeLine_removesNoCode {mark : String} {m : List Char} (spelled : mark.toList = '/' :: '/' :: m)
    (inline : Within isInline m) : RemovesNoCode (wholeLine mark) := by
  intro before u after v inside reads start
  have stops : Stops isInlineBlank mark.toList := by
    rw [spelled]
    exact (stops_cons _ _ _).2 (by decide)
  obtain ⟨g, r, e, rfl, rfl, opens, blank, inline', ends⟩ := (reads_wholeLine mark stops (by simp [spelled])).1 reads
  obtain rfl := start opens
  refine ⟨rfl, ?_, fun _ => rfl⟩
  have spacing : Within isSpacing g := blank.mono fun _ inline =>
    isSpacing_of_isBlank (isBlank_of_isInlineBlank inline)
  have text : g ++ mark.toList ++ r ++ e ++ after = g ++ '/' :: '/' :: ((m ++ r) ++ (e ++ after)) := by
    simp [spelled]
  rw [text, codeInk_gap spacing, codeInk_slashes, codeInk_comment (by simp [inline, inline'])]
  rcases ends with rfl | ⟨rfl, rfl⟩
  · simp [codeInk_cons, isCommented, newline_spacing]
  · rfl

theorem trailingComment_removesNoCode : RemovesNoCode trailingComment := by
  intro before u after v inside reads start
  obtain ⟨g, r, rfl, rfl, blank, -, inline, stops⟩ := reads_trailingComment.1 reads
  refine ⟨rfl, ?_, ?_⟩
  · have spacing : Within isSpacing g := blank.mono fun _ inline =>
      isSpacing_of_isBlank (isBlank_of_isInlineBlank inline)
    rw [List.append_assoc, List.cons_append, List.cons_append, codeInk_gap spacing, codeInk_slashes,
      codeInk_comment inline]
    exact codeInk_lineEnd stops _ _
  · intro opens
    refine absurd opens ?_
    have last := not_opensLine (o := lastOf before g) (w := '/' :: '/' :: r) (by simp)
      (by simpa using ⟨by decide, inline⟩)
    simpa using last

theorem leadingBlanks_removesNoCode : RemovesNoCode leadingBlanks := by
  intro before u after v inside reads start
  obtain ⟨rfl, opens, blank, -, -⟩ := reads_leadingBlanks.1 reads
  obtain rfl := start opens
  refine ⟨rfl, ?_, fun _ => rfl⟩
  rw [codeInk_gap (blank.mono fun _ => isSpacing_of_isBlank)]
  simp [afterGap]

theorem reduced_eq (s : List Char) :
    reduced false s = leadingBlanks.rewrite (trailingComment.rewrite
      ((wholeLine "//").rewrite ((wholeLine "///").rewrite s))) := rfl

theorem codeInk_rewrite {p : Pattern} (advances : p.Advances) (removes : RemovesNoCode p)
    (keeps : KeepsSlashes p) (s : List Char) : codeInk false (p.rewrite s) = codeInk false s :=
  codeInk_removed removes keeps (rewrite_swept advances s) fun _ => rfl

theorem codeInk_wholeLine (mark : String) {m : List Char} (spelled : mark.toList = '/' :: '/' :: m)
    (inline : Within isInline m) (s : List Char) :
    codeInk false ((wholeLine mark).rewrite s) = codeInk false s := by
  have starts : Stops isInlineBlank mark.toList := by
    rw [spelled]
    exact (stops_cons _ _ _).2 (by decide)
  exact codeInk_rewrite (wholeLine_advances starts (by simp [spelled]))
    (wholeLine_removesNoCode spelled inline) (wholeLine_keepsSlashes starts (by simp [spelled])) s

theorem codeInk_reduced (s : List Char) : codeInk false (reduced false s) = codeInk false s := by
  rw [reduced_eq, codeInk_rewrite leadingBlanks_advances leadingBlanks_removesNoCode
      leadingBlanks_keepsSlashes, codeInk_rewrite trailingComment_advances trailingComment_removesNoCode
      trailingComment_keepsSlashes, codeInk_wholeLine "//" rfl (by decide),
    codeInk_wholeLine "///" rfl (by decide)]

/-- A gap that is closed up in front of the operator `/=`: blanks, with blanks behind the operator;
`s` comes after its slash. -/
def Divides (g s : List Char) : Prop :=
  Within isBlank g ∧ ∃ h y, s = '=' :: (h ++ y) ∧ Within isBlank h ∧ h ≠ []

theorem arithmetic_ends : ∀ operator ∈ arithmeticOperators,
    operator.toList.getLast? ≠ some '/' ∧ ∃ c ∈ operator.toList.head?, isSpacing c = false := by
  decide

theorem arithmetic_slash : ∀ operator ∈ arithmeticOperators,
    operator.toList.head? = some '/' → operator = "/=" := by
  decide

theorem operator_solid : ∀ operator ∈ arithmeticOperators, ∀ c ∈ operator.toList,
    isSpacing c = false := by
  decide

theorem Aligned.prepend_solid {D : List Char → List Char → Prop} {m s' : List Char}
    (solid : ∀ c ∈ m, isSpacing c = false) (aligned : Aligned D (lastOf o m) s s') :
    Aligned D o (m ++ s) (m ++ s') := by
  induction m generalizing o with
  | nil => exact aligned
  | cons c m ih =>
      exact .cons_solid (solid c (by simp)) (ih (fun d member => solid d (by simp [member])) aligned)

theorem reads_divides (blank : Within isBlank g) (filled : g ≠ [])
    (behind : ∃ h y, s = '=' :: (h ++ y) ∧ Within isBlank h ∧ h ≠ []) :
    ¬ Fails (tightOperator arithmeticOperators) before (g ++ '/' :: s) := by
  intro fails
  obtain ⟨h, y, rfl, blank', nonempty⟩ := behind
  obtain ⟨k, y, rfl, within, stops⟩ := exists_run isBlank y
  exact fails (g ++ "/=".toList ++ (h ++ k)) y "/=".toList (by simp)
    ((reads_tightOperator (by decide)).2 ⟨g, "/=", h ++ k, by decide, rfl, rfl, blank, filled,
      (stops_cons _ _ _).2 (by decide), by simp [blank', within], by simp [nonempty], stops⟩)

theorem not_divides (filled : k ≠ []) (blank' : Within isBlank g)
    (unread : ∀ d ∈ k.getLast?, isBlank d = true →
      ∃ b, Fails (tightOperator arithmeticOperators) b (d :: (g ++ '/' :: s))) : ¬ Divides (k ++ g) s := by
  rintro ⟨blank, behind⟩
  obtain ⟨k, d, rfl⟩ := (List.eq_nil_or_concat k).resolve_left filled
  rw [List.concat_eq_append] at unread blank
  have last : isBlank d = true := blank d (by simp)
  obtain ⟨b, fails⟩ := unread d (by simp) last
  exact reads_divides (g := d :: g) ((within_cons _ _ _).2 ⟨last, blank'⟩) (by simp) behind fails

theorem arithmetic_aligned_go (swept : Swept (tightOperator arithmeticOperators) before s out)
    (gap : Gap k l) (fresh : o = some '/' → k = l ∧ ∀ d ∈ k.getLast?, isBlank d = true →
      ∃ b, Fails (tightOperator arithmeticOperators) b (d :: s)) :
    Aligned Divides o (k ++ s) (l ++ out) := by
  induction swept generalizing o k l with
  | done => simpa using Aligned.last gap
  | @step before u after v out reads nonempty later ih =>
      obtain ⟨g, operator, h, member, rfl, rfl, left, filled, stops, right, filled', -⟩ :=
        (reads_tightOperator (by decide)).1 reads
      obtain ⟨ends, c, head, -⟩ := arithmetic_ends operator member
      have slashed := arithmetic_slash operator member
      have solid := operator_solid operator member
      obtain ⟨m, spelled⟩ := List.head?_eq_some_iff.1 head
      rw [spelled] at reads ends slashed solid ⊢
      have spaced : Within isSpacing h := right.mono fun _ => isSpacing_of_isBlank
      have tail := ih (o := lastOf (some c) m) (k := h) (l := []) ⟨spaced, by simp, by simp, by simp⟩ (by
        intro slash
        rw [← lastOf_cons none, lastOf_none] at slash
        exact absurd slash ends)
      have rest := Aligned.prepend_solid (fun d inside => solid d (by simp [inside])) tail
      have wider : Gap (k ++ g) l := by
        refine ⟨?_, gap.spacing', fun present => ?_, fun empty => ?_⟩
        · simp [gap.spacing, left.mono fun _ => isSpacing_of_isBlank]
        · exact List.mem_append_left _ (gap.newline present)
        · exact absurd (List.append_eq_nil_iff.1 empty).2 filled
      have whole := Aligned.cell (D := Divides) (o := o) wider (solid c (by simp)) ?_ rest
      · simpa using whole
      -- A slash comes to stand before an operator that starts with one, and that is `/=`.
      rintro slash rfl -
      obtain ⟨rfl, unread⟩ := fresh slash
      have name := slashed (by simp)
      subst name
      obtain rfl : m = ['='] := by simpa using spelled.symm
      by_cases empty : k = []
      · subst empty
        exact iff_of_true rfl ⟨by simpa using left, h, after, by simp, right, filled'⟩
      · exact iff_of_false empty (not_divides empty left (by simpa using unread))
  | @skip before c s out fails later ih =>
      cases spacing : isSpacing c with
      | true =>
          have front : Gap [c] [c] := .refl (by simpa using spacing)
          have next := ih (o := o) (gap.append front) (by
            intro slash
            obtain ⟨rfl, -⟩ := fresh slash
            refine ⟨rfl, fun d last _ => ⟨before, ?_⟩⟩
            obtain rfl : c = d := by simpa using last
            exact fails)
          simpa using next
      | false =>
          refine .cell gap spacing ?_ (by simpa using ih (k := []) (.refl (by simp)) (by simp))
          rintro slash rfl filled
          obtain ⟨rfl, unread⟩ := fresh slash
          have apart := not_divides filled (within_nil isBlank) unread
          exact iff_of_false filled (by simpa using apart)

theorem arithmetic_aligned (s : List Char) :
    Aligned Divides none s ((tightOperator arithmeticOperators).rewrite s) := by
  have swept := rewrite_swept (tightOperator_advances arithmeticOperators) s
  simpa using arithmetic_aligned_go (o := none) (k := []) swept (.refl (by simp)) (by simp)

/-- The replacements bring two slashes together only where one of them starts an operator `/=` between
blanks. -/
theorem replacements_aligned (s : List Char) :
    Aligned Divides none s (RuleSet.applyAll productionReplacements s) := by
  rw [replacements_eq]
  have equality := steady_of_respaced (by decide) (equality_respaced isSolid
    ((tightOperator arithmeticOperators).rewrite s))
  have layout := steady_of_respaced (by decide) (applyAll_respaced
    (fun _ member => layout_respaced member) ((tightOperator equalityOperators).rewrite
      ((tightOperator arithmeticOperators).rewrite s)))
  exact ((arithmetic_aligned s).trans equality).trans layout

/-- The production profile keeps the code of a text, apart from its comments and its spacing, exactly
where it keeps every line break that ends a comment in front of code and no slash of the code stands in
front of an operator `/=` that is closed up. -/
theorem code_rewrite_iff (s : List Char) :
    ink (code ((ruleSet ⟨false, true⟩).rewrite s)) = ink (code s) ↔
      KeepsBreaks false (reduced false s) ((ruleSet ⟨false, true⟩).rewrite s) ∧
        ¬ FormsComment Divides false (reduced false s) := by
  change codeInk false ((production false).rewrite s) = codeInk false s ↔
    KeepsBreaks false (reduced false s) ((production false).rewrite s) ∧ _
  rw [rewrite_eq, ← codeInk_reduced s]
  exact (replacements_aligned (reduced false s)).codeInk_eq_iff

/-- A comment without a blank in front of it takes in the statement on the next line. -/
theorem code_lost :
    ink (code ((ruleSet ⟨false, true⟩).rewrite "a//b\nreturn\n".toList)) ≠
      ink (code "a//b\nreturn\n".toList) := by
  decide +kernel

end SourceBundle.Swift
