import SourceBundle.Proofs.Production.Settled.Marks

/-!
What the sweeps of the rules about keywords leave behind. A keyword is found where a line starts or
where no word character stands before, and what is written starts with a semicolon or with the keyword.
-/

namespace SourceBundle.Swift

open Pattern Text

variable {p : Pattern} {s u after v out : List Char} {before o : Option Char} {words : List String}

def GoesOn (k : List Char) (d : Option Char) : Prop := k = [] ∧ ∃ c ∈ d, isWord c = true

def NoColon (_ : List Char) (d : Option Char) : Prop := d ≠ some ':'

def BraceNext (k : List Char) (d : Option Char) : Prop := d = some '\x7b' → k = []

def SpaceAtMost (q : Char → Bool) (k : List Char) (_ : Option Char) : Prop :=
  ∀ i, i <+: k → Within q i → i <+: [' ']

theorem keywordLine_writes : keywordLine.Writes (· == ';') := by
  intro before u after v reads
  obtain ⟨g, word, -, -, rfl, -⟩ := reads_keywordLine.1 reads
  exact ⟨';', _, rfl, by simp⟩

theorem defaultLine_writes : defaultLine.Writes (· == ';') := by
  intro before u after v reads
  obtain ⟨g, h, -, rfl, -⟩ := reads_defaultLine.1 reads
  exact ⟨';', _, rfl, by simp⟩

theorem not_semicolon : ∀ c : Char, (c == ';') = true → (c != ';') = false := by
  simp

theorem within_word {w : List Char} (word : Within isWord w) : Within (· != ';') w := by
  refine word.mono fun c letter => ?_
  rw [bne_iff_ne]
  rintro rfl
  exact absurd letter (by decide)

theorem goesOn_copied (fails : Fails keywordLine before ('\n' :: s))
    (later : Swept keywordLine (some '\n') s out) : Trailed statementKeywords GoesOn out := by
  intro word member k z split within stops
  by_contra ends
  obtain ⟨filled, letters⟩ := statementKeyword_word member
  subst split
  obtain ⟨rest, rfl, onward⟩ := later.copied (keywordLine_writes.quiet not_semicolon fun _ => True)
    (fun _ _ => trivial) trivial (within_word letters)
  -- The word ends in the text as well, since only blanks are taken.
  have stops' : Stops isWord rest := by
    intro d first
    obtain ⟨rest, rfl⟩ : ∃ r, rest = d :: r := ⟨_, (List.cons_head?_tail first).symm⟩
    by_contra letter
    rw [Bool.not_eq_false] at letter
    rcases onward.cases_cons with ⟨u, after, v, r, taken, -, reads, nonempty, -⟩ | ⟨-, r, same, -⟩
    · obtain ⟨g, word', -, rfl, -, blank, nonempty', -⟩ := reads_keywordLine.1 reads
      rw [List.append_assoc] at taken
      have blank' := blank.head nonempty' taken.symm
      rw [isWord_of_isBlank blank'] at letter
      exact absurd letter Bool.false_ne_true
    · cases k with
      | nil =>
          refine ends ⟨rfl, d, ?_, letter⟩
          rw [List.nil_append] at same
          simp [same]
      | cons e k =>
          obtain ⟨rfl, -⟩ := List.cons.inj same
          rw [isWord_of_isBlank (within e (by simp))] at letter
          exact absurd letter Bool.false_ne_true
  refine fails ('\n' :: word.toList) rest (';' :: word.toList) (by simp) (reads_keywordLine.2
    ⟨['\n'], word, member, rfl, rfl, by decide, by simp, by simp, stops'⟩)

theorem swept_keywordLine (swept : Swept keywordLine before s out)
    (start : AfterNewline o → Trailed statementKeywords GoesOn out) :
    Throughout AfterNewline (Trailed statementKeywords GoesOn) o out := by
  have plain : PlainWords statementKeywords := by decide
  induction swept generalizing o with
  | done => exact throughout_nil.2 start
  | @step before u after v out reads nonempty later ih =>
      obtain ⟨g, word, member, rfl, rfl, -⟩ := reads_keywordLine.1 reads
      have letters := (statementKeyword_word member).2
      have inline : ∀ c ∈ ';' :: word.toList, ¬ AfterNewline (some c) := by
        rintro c inside newline
        rw [AfterNewline, Option.some.injEq] at newline
        subst newline
        rcases List.mem_cons.1 inside with same | inside
        · exact absurd same (by decide)
        · exact absurd (letters _ inside) (by decide)
      refine (throughout_append_of (by simp) inline).2
        ⟨fun _ => trailed_spacing plain (by decide), ih fun newline => ?_⟩
      obtain ⟨w, c, spelled⟩ := (List.eq_nil_or_concat word.toList).resolve_left (plain word member).1
      rw [spelled, List.concat_eq_append, lastOf_cons, lastOf_append, lastOf_cons, lastOf_nil] at newline
      exact absurd newline (inline c (by simp [spelled]))
  | @skip before c s out fails later ih =>
      refine throughout_cons.2 ⟨start, ih fun newline => ?_⟩
      rw [AfterNewline, Option.some.injEq] at newline
      subst newline
      exact goesOn_copied fails later

theorem keywordLine_eq_self (settled : Throughout AfterNewline (Trailed statementKeywords GoesOn) none s) :
    keywordLine.rewrite s = s := by
  refine rewrite_eq_self keywordLine_advances ?_
  rintro x u after v rfl reads
  obtain ⟨g, word, member, rfl, rfl, blank, nonempty, opens, stops⟩ := reads_keywordLine.1 reads
  exfalso
  obtain ⟨g, c, rfl⟩ := (List.eq_nil_or_concat g).resolve_left nonempty
  simp only [List.concat_eq_append, lastOf_append, lastOf_cons, lastOf_nil, opensLine_some] at opens
  subst opens
  obtain ⟨k, z, rfl, within, stops'⟩ := exists_run isBlank after
  obtain ⟨rfl, d, next, letter⟩ := settled (x ++ (g ++ ['\n'])) (word.toList ++ (k ++ z)) (by simp)
    (by simp [AfterNewline]) word member k z rfl within stops'
  have closed := stops d next
  rw [letter] at closed
  exact Bool.false_ne_true closed.symm

theorem noColon_copied (fails : Fails defaultLine before ('\n' :: s))
    (later : Swept defaultLine (some '\n') s out) : Trailed ["default"] NoColon out := by
  rintro word member k z rfl within stops next
  rw [List.mem_singleton] at member
  subst member
  obtain ⟨z, rfl⟩ : ∃ r, z = ':' :: r := ⟨_, (List.cons_head?_tail next).symm⟩
  have other : Within (· != ';') ("default".toList ++ k ++ [':']) := by
    rw [within_append, within_append]
    refine ⟨⟨by decide, within.mono fun c blank => ?_⟩, by decide⟩
    rw [bne_iff_ne]
    rintro rfl
    exact absurd blank (by decide)
  rw [← List.append_assoc, List.append_cons] at later
  obtain ⟨rest, rfl, -⟩ := later.copied (defaultLine_writes.quiet not_semicolon fun _ => True)
    (fun _ _ => trivial) trivial other
  exact fails ('\n' :: ("default".toList ++ k ++ [':'])) rest (';' :: ("default".toList ++ k ++ [':']))
    (by simp) (reads_defaultLine.2 ⟨['\n'], k, by simp, rfl, by decide, by simp, by simp, within⟩)

theorem swept_defaultLine (swept : Swept defaultLine before s out)
    (start : AfterNewline o → Trailed ["default"] NoColon out) :
    Throughout AfterNewline (Trailed ["default"] NoColon) o out := by
  have plain : PlainWords ["default"] := by decide
  have colon : ∀ z, Trailed ["default"] NoColon (':' :: z) := by
    intro z word member k r split
    rw [List.mem_singleton] at member
    subst member
    simp at split
  induction swept generalizing o with
  | done => exact throughout_nil.2 start
  | @step before u after v out reads nonempty later ih =>
      obtain ⟨g, h, rfl, rfl, -, -, -, blank⟩ := reads_defaultLine.1 reads
      have inline : ∀ c ∈ ";default".toList, ¬ AfterNewline (some c) := by
        simp [AfterNewline]
      have split : ';' :: ("default".toList ++ h ++ [':']) ++ out =
          ";default".toList ++ (h ++ ':' :: out) := by simp
      rw [split]
      refine (throughout_append_of (by simp) inline).2 ⟨fun _ => trailed_spacing plain (by decide),
        throughout_append.2 ⟨?_, throughout_cons.2 ⟨fun _ => colon out, ih fun newline => ?_⟩⟩⟩
      · rintro p q rfl filled -
        obtain ⟨c, q, rfl⟩ := List.exists_cons_of_ne_nil filled
        exact trailed_spacing plain (isSpacing_of_isBlank (blank c (by simp)))
      · simp [AfterNewline] at newline
  | @skip before c s out fails later ih =>
      refine throughout_cons.2 ⟨start, ih fun newline => ?_⟩
      rw [AfterNewline, Option.some.injEq] at newline
      subst newline
      exact noColon_copied fails later

theorem defaultLine_eq_self (settled : Throughout AfterNewline (Trailed ["default"] NoColon) none s) :
    defaultLine.rewrite s = s := by
  refine rewrite_eq_self defaultLine_advances ?_
  rintro x u after v rfl reads
  obtain ⟨g, h, rfl, rfl, blank, nonempty, opens, blank'⟩ := reads_defaultLine.1 reads
  exfalso
  obtain ⟨g, c, rfl⟩ := (List.eq_nil_or_concat g).resolve_left nonempty
  simp only [List.concat_eq_append, lastOf_append, lastOf_cons, lastOf_nil, opensLine_some] at opens
  subst opens
  exact settled (x ++ (g ++ ['\n'])) ("default".toList ++ (h ++ ':' :: after)) (by simp)
    (by simp [AfterNewline]) "default" (by simp) h (':' :: after) rfl blank'
    ((stops_cons _ _ _).2 (by decide)) rfl

/-- A rule that reads a word where no word character stands before, and writes it again. -/
structure WordLed (p : Pattern) : Prop where
  edge : ∀ before u after v, p.Reads before u after v → Apart before
  writes : p.Writes isWord

theorem isWord_of_not_apart {c : Char} (letter : isWord c = true) : ¬ Apart (some c) := by
  simp [Apart, letter]

theorem WordLed.copied (led : WordLed p) {c : Char} (letter : isWord c = true) {w k z : List Char}
    (word : Within isWord w) (other : Within (fun d => !isWord d) k)
    (swept : Swept p (some c) s (w ++ (k ++ z))) : ∃ rest, s = w ++ (k ++ rest) := by
  have quiet : Quiet p (fun o => ¬ Apart o) isWord := by
    intro before u after v out inside reads
    exact absurd (led.edge _ _ _ _ reads) inside
  obtain ⟨rest, rfl, onward⟩ := swept.copied quiet (fun _ => isWord_of_not_apart)
    (isWord_of_not_apart letter) word
  obtain ⟨rest, rfl, -⟩ := onward.copied (led.writes.quiet (by simp) fun _ => True) (fun _ _ => trivial)
    trivial other
  exact ⟨rest, rfl⟩

theorem within_blank {k : List Char} (blank : Within isBlank k) : Within (fun d => !isWord d) k :=
  blank.mono fun c here => by simp [isWord_of_isBlank here]

def Words (words : List String) : Prop := ∀ word ∈ words, word.toList ≠ [] ∧ Within isWord word.toList

instance (words : List String) : Decidable (Words words) :=
  inferInstanceAs (Decidable (∀ word ∈ words, _))

/-- The rule writes a space for the blanks of a class behind a word. -/
def SpacesAfter (p : Pattern) (words : List String) (q : Char → Bool) : Prop :=
  ∀ before u after v, p.Reads before u after v ↔
    ∃ g, ∃ word ∈ words, u = word.toList ++ g ∧ v = word.toList ++ [' '] ∧ Within q g ∧ g ≠ [] ∧
      Stops q after ∧ Apart before

theorem keywordSpace_spacesAfter : SpacesAfter keywordSpace spacedKeywords isBlank :=
  fun _ _ _ _ => reads_keywordSpace

theorem returnSpace_spacesAfter : SpacesAfter returnSpace ["return"] isInlineBlank := by
  intro before u after v
  simp [reads_returnSpace]

theorem SpacesAfter.wordLed {q : Char → Bool} (reads_iff : SpacesAfter p words q) (letters : Words words) :
    WordLed p := by
  constructor
  · intro before u after v reads
    obtain ⟨g, word, -, -, -, -, -, -, apart⟩ := (reads_iff _ _ _ _).1 reads
    exact apart
  · intro before u after v reads
    obtain ⟨g, word, member, -, rfl, -⟩ := (reads_iff _ _ _ _).1 reads
    obtain ⟨filled, letter⟩ := letters word member
    obtain ⟨c, w, spelled⟩ := List.exists_cons_of_ne_nil filled
    exact ⟨c, w ++ [' '], by simp [spelled], letter c (by simp [spelled])⟩

theorem spaceAtMost_written {q : Char → Bool} (letters : Words words) (led : WordLed p)
    (other : ∀ c, isWord c = true → q c = false) {word : String} (member : word ∈ words) (stops : Stops q after)
    (later : Swept p before after out) : Trailed words (SpaceAtMost q) (word.toList ++ ' ' :: out) := by
  obtain ⟨filled, letter⟩ := letters word member
  intro word' member' k z split within' stops' i first inside
  obtain ⟨filled', letter'⟩ := letters word' member'
  cases k with
  | nil => simp [List.prefix_nil.1 first]
  | cons d k =>
      have apart : isWord d = false := isWord_of_isBlank (within' d (by simp))
      obtain ⟨-, rest⟩ := run_unique split letter letter' ((stops_cons _ _ _).2 (by decide))
        ((stops_cons _ _ _).2 apart)
      obtain ⟨rfl, rfl⟩ := List.cons.inj rest
      rcases List.prefix_cons_iff.1 first with rfl | ⟨i, rfl, onward⟩
      · simp
      · -- What is written next does not start with a blank of the class.
        cases i with
        | nil => simp
        | cons e i =>
            obtain ⟨r, rfl⟩ := onward
            have outside : q e = false := (later.stops led.writes other stops).head rfl
            simp [outside] at inside

theorem spaceAtMost_copied {q : Char → Bool} {c : Char} (letters : Words words) (led : WordLed p)
    (reads_iff : SpacesAfter p words q) (apart : Apart before) (fails : Fails p before (c :: s))
    (later : Swept p (some c) s out) : Trailed words (SpaceAtMost q) (c :: out) := by
  intro word member k z split within stops i first inside
  by_contra more
  obtain ⟨filled, letter⟩ := letters word member
  obtain ⟨d, w, spelled⟩ := List.exists_cons_of_ne_nil filled
  rw [spelled, within_cons] at letter
  rw [spelled, List.cons_append, List.cons.injEq] at split
  obtain ⟨rfl, rfl⟩ := split
  obtain ⟨rest, rfl⟩ := led.copied letter.1 letter.2 (within_blank within) later
  obtain ⟨g, rest', run, within', stops'⟩ := exists_run q (k ++ rest)
  have nonempty : g ≠ [] := by
    rintro rfl
    obtain ⟨r, rfl⟩ := first
    cases i with
    | nil => simp at more
    | cons e i =>
        rw [List.nil_append] at run
        rw [← run] at stops'
        simp only [List.cons_append, stops_cons] at stops'
        simp [stops'] at inside
  refine fails (word.toList ++ g) rest' (word.toList ++ [' ']) (by simp [spelled, run]) ?_
  exact (reads_iff _ _ _ _).2 ⟨g, word, member, rfl, rfl, within', nonempty, stops', apart⟩

theorem swept_spaceAtMost {q : Char → Bool} (blank : ∀ c, q c = true → isBlank c = true)
    (plain : PlainWords words) (letters : Words words) (reads_iff : SpacesAfter p words q)
    (swept : Swept p before s out) (same : Apart o → Apart before) :
    Throughout Apart (Trailed words (SpaceAtMost q)) o out := by
  have led := reads_iff.wordLed letters
  have other : ∀ c, isWord c = true → q c = false := by
    intro c letter
    by_contra inside
    rw [isWord_of_isBlank (blank c (by simpa using inside))] at letter
    exact absurd letter Bool.false_ne_true
  induction swept generalizing o with
  | done =>
      refine throughout_nil.2 fun _ word member k z split => ?_
      exact absurd (List.append_eq_nil_iff.1 split.symm).1 (letters word member).1
  | @step before u after v out reads nonempty later ih =>
      obtain ⟨g, word, member, rfl, rfl, within, nonempty', stops, -⟩ := (reads_iff _ _ _ _).1 reads
      obtain ⟨filled, letter⟩ := letters word member
      rw [List.append_assoc, List.singleton_append]
      refine (throughout_append_of filled fun c inside => isWord_of_not_apart (letter c inside)).2
        ⟨fun _ => spaceAtMost_written letters led other member stops later,
          throughout_cons.2 ⟨fun _ => trailed_spacing plain (by decide), ih fun _ => ?_⟩⟩
      obtain ⟨c, last, -, member'⟩ := lastOf_spacing (o := before) (x := word.toList) (r := [])
        (within.mono fun c inside => isSpacing_of_isBlank (blank c inside)) (by simp) nonempty'
      rw [last]
      simpa [Apart] using isWord_of_isBlank (blank c (within c member'))
  | @skip before c s out fails later ih =>
      exact throughout_cons.2 ⟨fun apart => spaceAtMost_copied letters led reads_iff (same apart) fails later, ih id⟩

theorem spaceAtMost_eq_self {q : Char → Bool} (blank : ∀ c, q c = true → isBlank c = true)
    (reads_iff : SpacesAfter p words q)
    (settled : Throughout Apart (Trailed words (SpaceAtMost q)) none s) : p.rewrite s = s := by
  refine rewrite_eq_self ?_ ?_
  · intro before u after v reads
    obtain ⟨g, word, -, rfl, -, -, nonempty, -⟩ := (reads_iff _ _ _ _).1 reads
    simp [nonempty]
  · rintro x u after v rfl reads
    obtain ⟨g, word, member, rfl, rfl, within, nonempty, -, apart⟩ := (reads_iff _ _ _ _).1 reads
    obtain ⟨k, z, rfl, within', stops⟩ := exists_run isBlank after
    have space := settled x (word.toList ++ (g ++ k ++ z)) (by simp) apart word member (g ++ k) z rfl
      (by simp [within', within.mono blank]) stops g (List.prefix_append _ _) within
    rcases List.prefix_cons_iff.1 space with rfl | ⟨r, rfl, empty⟩
    · exact absurd rfl nonempty
    · rw [List.prefix_nil.1 empty]

theorem deferBlock_wordLed : WordLed deferBlock := by
  constructor
  · intro before u after v reads
    obtain ⟨g, -, -, -, apart⟩ := reads_deferBlock.1 reads
    exact apart
  · intro before u after v reads
    obtain ⟨g, -, rfl, -⟩ := reads_deferBlock.1 reads
    exact ⟨'d', _, rfl, by decide⟩

theorem braceNext_copied {c : Char} (apart : Apart before) (fails : Fails deferBlock before (c :: s))
    (later : Swept deferBlock (some c) s out) : Trailed ["defer"] BraceNext (c :: out) := by
  intro word member k z split within stops next
  rw [List.mem_singleton] at member
  subst member
  obtain ⟨z, rfl⟩ : ∃ r, z = '\x7b' :: r := ⟨_, (List.cons_head?_tail next).symm⟩
  obtain ⟨rfl, rfl⟩ : c = 'd' ∧ out = "efer".toList ++ (k ++ ['\x7b'] ++ z) := by
    simpa using split
  have other : Within (fun d => !isWord d) (k ++ ['\x7b']) := by
    rw [within_append]
    exact ⟨within_blank within, by decide⟩
  obtain ⟨rest, rfl⟩ := deferBlock_wordLed.copied (by decide) (by decide) other later
  exact absurd (reads_deferBlock.2 ⟨k, rfl, rfl, within, apart⟩)
    (fails ("defer".toList ++ k ++ ['\x7b']) rest _ (by simp))

theorem swept_deferBlock (swept : Swept deferBlock before s out) (same : Apart o → Apart before) :
    Throughout Apart (Trailed ["defer"] BraceNext) o out := by
  have plain : PlainWords ["defer"] := by decide
  induction swept generalizing o with
  | done =>
      refine throughout_nil.2 fun _ word member k z split => ?_
      exact absurd (List.append_eq_nil_iff.1 split.symm).1 (plain word member).1
  | @step before u after v out reads nonempty later ih =>
      obtain ⟨g, rfl, rfl, -⟩ := reads_deferBlock.1 reads
      have split : "defer\x7b".toList ++ out = "defer".toList ++ '\x7b' :: out := by simp
      rw [split]
      refine (throughout_append_of (by simp) fun c inside => ?_).2 ⟨fun _ => ?_,
        throughout_cons.2 ⟨fun _ => ?_, ih fun apart => ?_⟩⟩
      · exact isWord_of_not_apart ((by decide : Within isWord "defer".toList) c inside)
      · intro word member k z split within stops next
        rw [List.mem_singleton] at member
        subst member
        have rest := List.append_cancel_left split
        cases k with
        | nil => rfl
        | cons d k =>
            obtain ⟨rfl, -⟩ := List.cons.inj rest
            exact absurd (within '\x7b' (by simp)) (by decide)
      · intro word member k z split
        rw [List.mem_singleton] at member
        subst member
        simp at split
      · simpa [Apart] using apart
  | @skip before c s out fails later ih =>
      exact throughout_cons.2 ⟨fun apart => braceNext_copied (same apart) fails later, ih id⟩

theorem deferBlock_eq_self (settled : Throughout Apart (Trailed ["defer"] BraceNext) none s) :
    deferBlock.rewrite s = s := by
  refine rewrite_eq_self deferBlock_advances ?_
  rintro x u after v rfl reads
  obtain ⟨g, rfl, rfl, blank, apart⟩ := reads_deferBlock.1 reads
  obtain rfl := settled x ("defer".toList ++ (g ++ '\x7b' :: after)) (by simp) apart "defer" (by simp) g
    ('\x7b' :: after) rfl blank ((stops_cons _ _ _).2 (by decide)) rfl
  rfl

theorem separatorAfterIn_wordLed : WordLed separatorAfterIn := by
  constructor
  · intro before u after v reads
    exact (reads_separatorAfterIn.1 reads).2.2
  · intro before u after v reads
    obtain ⟨-, rfl, -⟩ := reads_separatorAfterIn.1 reads
    exact ⟨'i', _, rfl, by decide⟩

theorem swept_separatorAfterIn (swept : Swept separatorAfterIn before s out)
    (same : Apart o → Apart before) :
    Throughout Apart (fun s => ¬ "in;".toList <+: s) o out := by
  induction swept generalizing o with
  | done => exact throughout_nil.2 fun _ => by simp
  | @step before u after v out reads nonempty later ih =>
      obtain ⟨rfl, rfl, -⟩ := reads_separatorAfterIn.1 reads
      have split : "in ".toList ++ out = "in".toList ++ ' ' :: out := by simp
      rw [split]
      refine (throughout_append_of (by simp) fun c inside => ?_).2 ⟨fun _ => by simp,
        throughout_cons.2 ⟨fun _ => by simp, ih fun _ => ?_⟩⟩
      · exact isWord_of_not_apart ((by decide : Within isWord "in".toList) c inside)
      · simpa [Apart] using (by decide : isWord ';' = false)
  | @skip before c s out fails later ih =>
      refine throughout_cons.2 ⟨?_, ih id⟩
      rintro apart ⟨z, split⟩
      obtain ⟨rfl, rfl⟩ : 'i' = c ∧ ['n'] ++ ([';'] ++ z) = out := by simpa using split
      obtain ⟨rest, rfl⟩ := separatorAfterIn_wordLed.copied (by decide) (by decide) (by decide) later
      exact fails "in;".toList rest "in ".toList (by simp) (reads_separatorAfterIn.2 ⟨rfl, rfl, same apart⟩)

theorem separatorAfterIn_eq_self (settled : Throughout Apart (fun s => ¬ "in;".toList <+: s) none s) :
    separatorAfterIn.rewrite s = s := by
  refine rewrite_eq_self separatorAfterIn_advances ?_
  rintro x u after v rfl reads
  obtain ⟨rfl, rfl, apart⟩ := reads_separatorAfterIn.1 reads
  exact absurd (List.prefix_append _ _) (settled x ("in;".toList ++ after) (by simp) apart)

end SourceBundle.Swift
