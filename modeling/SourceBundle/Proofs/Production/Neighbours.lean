import SourceBundle.Proofs.Production.Separators

/-!
What the changes of spacing leave next to each other: where blanks are gone beside a mark they stay
gone, and what may follow a word still follows it.
-/

namespace SourceBundle.Swift

open Pattern Text

variable {marks : List String} {ends : Char → Bool} {x g h y : List Char} {o : Option Char} {m : Char}

def AfterBlank (o : Option Char) : Prop := ∃ c ∈ o, isBlank c = true

@[simp] theorem afterBlank_none : ¬ AfterBlank none := by simp [AfterBlank]

@[simp] theorem afterBlank_some (c : Char) : AfterBlank (some c) ↔ isBlank c = true := by
  simp [AfterBlank]

abbrev NoneAfter (m : Char) (q : Char → Bool) : Option Char → List Char → Prop :=
  Throughout (fun o => o = some m) (Stops q)

abbrev NoBlankBefore (m : Char) : Option Char → List Char → Prop :=
  Throughout AfterBlank (Stops fun c => c == m)

def isDelimiter (c : Char) : Bool := ['\x7b', '\x7d', ':', ','].contains c

def isPlain (c : Char) : Bool := !isSpacing c && !isDelimiter c

theorem delimiter_eq : ∀ mark ∈ delimiters, ∃ c, mark.toList = [c] ∧ isDelimiter c = true := by
  simp [delimiters, isDelimiter]

theorem isSpacing_of_isDelimiter (delimiter : isDelimiter m = true) : isSpacing m = false := by
  simp only [isDelimiter, List.contains_eq_mem, decide_eq_true_eq, List.mem_cons, List.not_mem_nil,
    or_false] at delimiter
  rcases delimiter with rfl | rfl | rfl | rfl <;> decide

theorem lastOf_mark {mark : String} (member : mark ∈ delimiters) (after : mark.toList <:+ x) :
    ∃ c, lastOf o x = some c ∧ isDelimiter c = true := by
  obtain ⟨c, spelled, delimiter⟩ := delimiter_eq mark member
  exact ⟨c, lastOf_suffix after (by simp [spelled]), delimiter⟩

theorem lastOf_spacing {p r : List Char} (spacing : Within isSpacing h) (split : h = p ++ r)
    (filled : p ≠ []) : ∃ c, lastOf o (x ++ p) = some c ∧ isSpacing c = true ∧ c ∈ h := by
  obtain ⟨p, c, rfl⟩ := (List.eq_nil_or_concat p).resolve_left filled
  have member : c ∈ h := by simp [split]
  exact ⟨c, by simp, spacing c member, member⟩

theorem Change.noneAfter (change : Change marks ends x g h y) {q : Char → Bool} (spacing : isSpacing m = false)
    (letter : m ≠ 'n') (marked : ∀ mark ∈ marks, ∃ c ∈ mark.toList.getLast?, c ≠ m)
    (closed : NoneAfter m isBlank o (x ++ g ++ y)) (every : NoneAfter m q o (x ++ g ++ y)) :
    NoneAfter m q o (x ++ h ++ y) := by
  have apart : Within isBlank g → lastOf o x ≠ some m := by
    intro blank last
    have stops := closed x (g ++ y) (by simp) last
    obtain ⟨c, g, rfl⟩ := List.exists_cons_of_ne_nil change.nonempty
    rw [within_cons] at blank
    simp [blank.1] at stops
  refine every.stops_between ?_
  intro p r split last
  by_cases empty : p = []
  · subst empty
    rw [List.append_nil] at last
    cases change with
    | close blank | space blank | separate blank => exact absurd last (apart blank)
    | correct member after =>
        obtain ⟨c, ended, other⟩ := marked _ member
        rw [lastOf_suffix after ended, Option.some.injEq] at last
        exact absurd last other
    | closure =>
        simp only [lastOf_append, lastOf_cons, lastOf_nil, Option.some.injEq] at last
        exact absurd last.symm letter
  · obtain ⟨c, ended, blank, -⟩ := lastOf_spacing (o := o) (x := x) change.spacing' split empty
    rw [ended, Option.some.injEq] at last
    simp [← last, blank] at spacing

theorem Change.noBlankAfter (change : Change marks ends x g h y) (spacing : isSpacing m = false)
    (letter : m ≠ 'n') (ended : ends m = false) (leads : SeparatorsLead o (x ++ g ++ y))
    (every : NoneAfter m isBlank o (x ++ g ++ y)) : NoneAfter m isBlank o (x ++ h ++ y) := by
  refine every.stops_between ?_
  intro p r split last
  by_cases empty : p = []
  · subst empty
    rw [List.append_nil] at last
    rw [List.nil_append] at split
    subst split
    cases change with
    | close _ _ _ stops => exact stops
    | @space x _ _ _ c _ _ _ _ _ finishes =>
        simp only [lastOf_append, lastOf_cons, lastOf_nil, Option.some.injEq] at last
        simp [← last, finishes] at ended
    | separate => exact (stops_cons _ _ _).2 (by decide)
    | correct => exact (leads (x ++ [';']) y (by simp) (by simp [AfterSeparator])).stops_isBlank
    | closure =>
        simp only [lastOf_append, lastOf_cons, lastOf_nil, Option.some.injEq] at last
        exact absurd last.symm letter
  · obtain ⟨c, final, blank, -⟩ := lastOf_spacing (o := o) (x := x) change.spacing' split empty
    rw [final, Option.some.injEq] at last
    simp [← last, blank] at spacing

theorem Change.noBlankBefore (change : Change delimiters ends x g h y) (delimiter : isDelimiter m = true)
    (leads : SeparatorsLead o (x ++ g ++ y)) (every : NoBlankBefore m o (x ++ g ++ y)) :
    NoBlankBefore m o (x ++ h ++ y) := by
  have behind : Within isBlank g → Stops (fun c => c == m) y := by
    intro blank
    obtain ⟨c, last, -, member⟩ := lastOf_spacing (o := o) (x := x) (r := []) change.spacing (by simp)
      change.nonempty
    exact every (x ++ g) y rfl (by rw [last, afterBlank_some]; exact blank c member)
  have next : StatementNext y → Stops (fun c => c == m) y := by
    refine fun next => next.stops ?_
    intro c member
    rw [beq_eq_false_iff_ne]
    rintro rfl
    revert delimiter
    revert member
    simp only [List.mem_cons, List.not_mem_nil, or_false]
    rintro (rfl | rfl | rfl | rfl | rfl | rfl) <;> decide
  have apart : ∀ {c r}, isSpacing c = true → Stops (fun c => c == m) (c :: r) := by
    intro c r spacing
    rw [stops_cons, beq_eq_false_iff_ne]
    rintro rfl
    simp [isSpacing_of_isDelimiter delimiter] at spacing
  refine every.stops_between ?_
  intro p r split after
  have spacing' := change.spacing'
  rw [split, within_append] at spacing'
  cases r with
  | cons c r => exact apart ((within_cons _ _ _).1 spacing'.2).1
  | nil =>
      rw [List.append_nil] at split
      subst split
      rw [List.nil_append]
      cases change with
      | close blank | space blank => exact behind blank
      | separate => simp [isBlank] at after
      | correct member before =>
          obtain ⟨c, last, mark⟩ := lastOf_mark (o := o) member before
          rw [List.append_nil, last, afterBlank_some] at after
          have spacing := isSpacing_of_isBlank after
          rw [isSpacing_of_isDelimiter mark] at spacing
          exact absurd spacing Bool.false_ne_true
      | @closure x =>
          exact next (leads (x ++ ['i', 'n'] ++ [';']) y (by simp) (by simp [AfterSeparator]))

/-- After each of the words, `ok` holds of the blanks that follow and of the character behind them. -/
def Trailed (words : List String) (ok : List Char → Option Char → Prop) (s : List Char) : Prop :=
  ∀ word ∈ words, ∀ k z, s = word.toList ++ (k ++ z) → Within isBlank k → Stops isBlank z → ok k z.head?

def PlainWords (words : List String) : Prop :=
  ∀ word ∈ words, word.toList ≠ [] ∧ Within isPlain word.toList

instance (words : List String) : Decidable (PlainWords words) :=
  inferInstanceAs (Decidable (∀ word ∈ words, _))

/-- What may follow a word may still follow it when blanks go, up to a semicolon at most. -/
def Shrinks (ok : List Char → Option Char → Prop) : Prop :=
  ∀ k k' d d', ok k d → k ≠ [] → k' <+: k → d' = d ∨ d' = some ';' → ok k' d'

variable {words : List String} {ok : List Char → Option Char → Prop} {p q s k z : List Char}

theorem PlainWords.head (plain : PlainWords words) {word : String} (member : word ∈ words) :
    ∃ c w, word.toList = c :: w ∧ isPlain c = true := by
  obtain ⟨filled, within⟩ := plain word member
  obtain ⟨c, w, spelled⟩ := List.exists_cons_of_ne_nil filled
  exact ⟨c, w, spelled, within c (by simp [spelled])⟩

theorem isSpacing_of_isPlain {c : Char} (plain : isPlain c = true) : isSpacing c = false := by
  simp only [isPlain, Bool.and_eq_true, Bool.not_eq_true'] at plain
  exact plain.1

theorem isDelimiter_of_isPlain {c : Char} (plain : isPlain c = true) : isDelimiter c = false := by
  simp only [isPlain, Bool.and_eq_true, Bool.not_eq_true'] at plain
  exact plain.2

theorem trailed_spacing (plain : PlainWords words) {c : Char} (spacing : isSpacing c = true) :
    Trailed words ok (c :: s) := by
  intro word member k z split
  obtain ⟨d, w, spelled, solid⟩ := plain.head member
  rw [spelled, List.cons_append, List.cons.injEq] at split
  rw [← split.1, isPlain, spacing] at solid
  exact absurd solid (by simp)

theorem Change.word_front (change : Change delimiters ends x g h y) (front : x = p ++ q) (filled : q ≠ [])
    {w : List Char} (plain : Within isPlain w) (split : q ++ (h ++ y) = w ++ s) :
    ∃ q', q = w ++ q' ∧ s = q' ++ (h ++ y) := by
  subst front
  rcases List.append_eq_append_iff.1 split with ⟨w', rfl, rest⟩ | ⟨q', rfl, rest⟩
  · rw [within_append] at plain
    cases w' with
    | nil => exact ⟨[], by simp, by simpa using rest.symm⟩
    | cons c w' =>
        exfalso
        have solid := (within_cons _ _ _).1 plain.2
        by_cases empty : h = []
        · subst empty
          obtain ⟨mark, member, before | after⟩ := change.beside
          · obtain ⟨d, last, delimiter⟩ := lastOf_mark (o := none) member before
            have inside : d ∈ q := by
              obtain ⟨q, e, rfl⟩ := (List.eq_nil_or_concat q).resolve_left filled
              simp only [List.concat_eq_append, lastOf_append, lastOf_cons, lastOf_nil,
                Option.some.injEq] at last
              simp [last]
            simp [isDelimiter_of_isPlain (plain.1 d inside)] at delimiter
          · obtain ⟨d, spelled, delimiter⟩ := delimiter_eq mark member
            obtain ⟨z, after⟩ := after
            rw [List.nil_append] at rest
            rw [spelled, rest, List.cons_append, List.cons_append, List.cons.injEq] at after
            rw [after.1, isDelimiter_of_isPlain solid.1] at delimiter
            exact absurd delimiter Bool.false_ne_true
        · have spacing := change.spacing'.head empty rest
          rw [isSpacing_of_isPlain solid.1] at spacing
          exact absurd spacing Bool.false_ne_true
  · exact ⟨q', rfl, rest⟩

/-- What keeps the words and what may follow them through changes of spacing. -/
structure Lasting (ends : Char → Bool) (words : List String) (ok : List Char → Option Char → Prop) :
    Prop where
  plain : PlainWords words
  apart : ∀ word ∈ words, ∀ p : List Char, ¬ ['i', 'n'] <:+ p ++ word.toList
  shrinks : Shrinks ok
  spaced : ∀ word ∈ words, ∀ c ∈ word.toList.getLast?, ends c = true →
    ∀ k k' d, k ≠ [] → ok k d → ok k' d

theorem last_behind_word {b : List Char} {c e : Char} (blank : Within isBlank b) (other : isBlank c = false)
    (same : x ++ [c] = p ++ (q ++ [e] ++ b)) : b = [] ∧ c = e := by
  rcases List.eq_nil_or_concat b with rfl | ⟨b, d, rfl⟩
  · rw [List.append_nil, ← List.append_assoc] at same
    exact ⟨rfl, by simpa using (List.append_inj' same rfl).2⟩
  · rw [List.concat_eq_append, ← List.append_assoc, ← List.append_assoc] at same
    obtain rfl : c = d := by simpa using (List.append_inj' same rfl).2
    simp [other] at blank

theorem Change.trailed (change : Change delimiters ends x g h y) (solid : ∀ c, ends c = true → isSolid c = true)
    (lasting : Lasting ends words ok) (front : x = p ++ q) (filled : q ≠ [])
    (trailed : Trailed words ok (q ++ g ++ y)) : Trailed words ok (q ++ h ++ y) := by
  intro word member k z split blank stops
  obtain ⟨w', e, spelled⟩ := (List.eq_nil_or_concat word.toList).resolve_left (lasting.plain word member).1
  have plain := (lasting.plain word member).2
  have letter : isPlain e = true := plain e (by simp [spelled])
  obtain ⟨q', rfl, rest⟩ := Change.word_front change front filled plain (by simpa using split)
  obtain ⟨k₀, z₀, run, blank₀, stops₀⟩ := exists_run isBlank (q' ++ (g ++ y))
  have holds := trailed word member k₀ z₀ (by simp [← run]) blank₀ stops₀
  obtain ⟨b, r, rfl, blank', stops'⟩ := exists_run isBlank q'
  cases r with
  | cons c r =>
      -- The blanks end in front of the change.
      obtain ⟨rfl, rfl⟩ := run_unique (by simpa using rest) blank blank' stops (by simpa using stops')
      obtain ⟨rfl, rfl⟩ := run_unique (by simpa using run.symm) blank₀ blank' stops₀ (by simpa using stops')
      simpa using holds
  | nil =>
      rw [List.append_nil] at front rest run
      -- So nothing but the word can end with a character that is no blank.
      have last : ∀ x' c, x = x' ++ [c] → isBlank c = false → b = [] ∧ c = e := by
        intro x' c ended other
        rw [ended, spelled, List.concat_eq_append] at front
        exact last_behind_word blank' other front
      cases change with
      | close blank'' nonempty beside stops'' =>
          obtain ⟨rfl, rfl⟩ := run_unique rest blank blank' stops (by simpa using stops'')
          obtain ⟨rfl, rfl⟩ := run_unique (run.symm.trans (List.append_assoc _ _ _).symm) blank₀
            (by simp [blank', blank'']) stops₀ stops''
          exact lasting.shrinks _ _ _ _ holds (by simp [nonempty]) (List.prefix_append _ _) (.inl rfl)
      | @space x' _ _ _ c blank'' nonempty inline kept lighter ended =>
          obtain ⟨rfl, rfl⟩ := last x' c rfl (by simpa [isSolid] using solid c ended)
          obtain ⟨r, y, rfl, blankr, stopsr⟩ := exists_run isBlank y
          have rest : k ++ z = h ++ r ++ y := by simpa using rest
          have run : k₀ ++ z₀ = g ++ r ++ y := by simpa using run.symm
          obtain ⟨rfl, rfl⟩ := run_unique rest blank
            (by simp [blankr, inline.mono fun _ => isBlank_of_isInlineBlank]) stops stopsr
          obtain ⟨rfl, rfl⟩ := run_unique run blank₀
            (by simp [blankr, blank'']) stops₀ stopsr
          exact lasting.spaced word member c (by simp [spelled]) ended _ _ _ (by simp [nonempty]) holds
      | @separate x' _ y c blank'' broken starts =>
          have solid' : isBlank c = false := by
            revert starts
            simp only [List.mem_cons, List.not_mem_nil, or_false]
            rintro (rfl | rfl | rfl | rfl | rfl) <;> decide
          obtain ⟨rfl, rfl⟩ := run_unique rest blank blank' stops ((stops_cons _ _ _).2 (by decide))
          obtain ⟨rfl, rfl⟩ := run_unique (run.symm.trans (List.append_assoc _ _ _).symm) blank₀
            (by simp [blank', blank'']) stops₀ (by simpa using solid')
          have nonempty : k ++ g ≠ [] := by simp [List.ne_nil_of_mem broken]
          exact lasting.shrinks _ _ _ _ holds nonempty (List.prefix_append _ _) (.inr rfl)
      | correct mark after =>
          obtain ⟨d, spelled', delimiter⟩ := delimiter_eq _ mark
          obtain ⟨x', rfl⟩ := after
          rw [spelled'] at last
          have other := isSpacing_of_isDelimiter delimiter
          simp only [isSpacing, Bool.or_eq_false_iff] at other
          obtain ⟨-, rfl⟩ := last x' d rfl other.1
          simp [isDelimiter_of_isPlain letter] at delimiter
      | @closure x' y =>
          obtain ⟨rfl, -⟩ := last (x' ++ ['i']) 'n' (by simp) (by decide)
          rw [List.append_nil] at front
          exact absurd ⟨x', front⟩ (lasting.apart word member p)

def AfterNewline (o : Option Char) : Prop := o = some '\n'

theorem Change.followed {A : Option Char → Prop} (change : Change delimiters ends x g h y)
    (solid : ∀ c, ends c = true → isSolid c = true) (lasting : Lasting ends words ok)
    (onward : A (lastOf o (x ++ h)) → A (lastOf o (x ++ g)) ∨ Trailed words ok y)
    (every : Throughout A (Trailed words ok) o (x ++ g ++ y)) :
    Throughout A (Trailed words ok) o (x ++ h ++ y) := by
  refine every.between ?_ ?_
  · intro p q front filled _ trailed
    exact Change.trailed change solid lasting front filled trailed
  · intro p q split holds
    cases q with
    | nil =>
        rw [List.append_nil] at split
        subst split
        rcases onward holds with before | trailed
        · exact every (x ++ g) y rfl before
        · exact trailed
    | cons c q =>
        have spacing : isSpacing c = true := change.spacing' c (by simp [split])
        exact trailed_spacing lasting.plain spacing

theorem Change.followed_apart (change : Change delimiters ends x g h y)
    (solid : ∀ c, ends c = true → isSolid c = true) (lasting : Lasting ends words ok)
    (every : Throughout Apart (Trailed words ok) o (x ++ g ++ y)) :
    Throughout Apart (Trailed words ok) o (x ++ h ++ y) := by
  refine Change.followed change solid lasting (fun _ => .inl ?_) every
  obtain ⟨c, last, spacing, -⟩ := lastOf_spacing (o := o) (x := x) (r := []) change.spacing (by simp)
    change.nonempty
  rw [last]
  simpa [Apart] using isWord_of_isSpacing spacing

theorem Change.followed_newline (change : Change delimiters ends x g h y)
    (solid : ∀ c, ends c = true → isSolid c = true) (lasting : Lasting ends words ok)
    (flush : FlushLeft o (x ++ g ++ y)) (every : Throughout AfterNewline (Trailed words ok) o (x ++ g ++ y)) :
    Throughout AfterNewline (Trailed words ok) o (x ++ h ++ y) := by
  refine Change.followed change solid lasting (fun newline => ?_) every
  exfalso
  -- No change writes a newline, and none is about blanks at the start of a line.
  have apart : Within isBlank g → ¬ AfterNewline (lastOf o x) := by
    intro blank newline
    have stops := flush x (g ++ y) (by simp) (by rw [newline]; simp)
    obtain ⟨c, g, rfl⟩ := List.exists_cons_of_ne_nil change.nonempty
    rw [within_cons] at blank
    simp [blank.1] at stops
  by_cases empty : h = []
  · subst empty
    rw [List.append_nil] at newline
    cases change with
    | close blank | space blank => exact apart blank newline
    | correct member after =>
        obtain ⟨c, last, delimiter⟩ := lastOf_mark (o := o) member after
        rw [AfterNewline, last, Option.some.injEq] at newline
        subst newline
        exact absurd delimiter (by decide)
  · obtain ⟨c, last, -, member⟩ := lastOf_spacing (o := o) (x := x) (r := []) change.spacing' (by simp) empty
    rw [AfterNewline, last, Option.some.injEq] at newline
    subst newline
    exact change.newline_not_mem member

theorem Change.followed_blank (change : Change delimiters ends x g h y)
    (solid : ∀ c, ends c = true → isSolid c = true) (lasting : Lasting ends words ok)
    (other : ∀ word ∈ words, Stops startsStatement word.toList) (leads : SeparatorsLead o (x ++ g ++ y))
    (every : Throughout AfterBlank (Trailed words ok) o (x ++ g ++ y)) :
    Throughout AfterBlank (Trailed words ok) o (x ++ h ++ y) := by
  refine Change.followed change solid lasting (fun blank => ?_) every
  obtain ⟨d, last, -, inside⟩ := lastOf_spacing (o := o) (x := x) (r := []) change.spacing (by simp)
    change.nonempty
  cases change with
  | close within | space within =>
      left
      rw [last, afterBlank_some]
      exact within d inside
  | separate => simp [isBlank] at blank
  | correct member after =>
      obtain ⟨c, before, delimiter⟩ := lastOf_mark (o := o) member after
      rw [List.append_nil, before, afterBlank_some] at blank
      have spacing := isSpacing_of_isBlank blank
      rw [isSpacing_of_isDelimiter delimiter] at spacing
      exact absurd spacing Bool.false_ne_true
  | @closure x =>
      right
      intro word member k z split
      have next := leads (x ++ ['i', 'n'] ++ [';']) y (by simp) (by simp [AfterSeparator])
      obtain ⟨c, w, spelled, -⟩ := lasting.plain.head member
      have stops := other word member
      rw [spelled, stops_cons] at stops
      rw [split, spelled, List.cons_append, statementNext_cons, stops] at next
      exact absurd next Bool.false_ne_true

end SourceBundle.Swift
