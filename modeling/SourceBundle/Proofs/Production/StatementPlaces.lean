import SourceBundle.Proofs.Production.Shifts

/-!
Places between two lines of which the second starts a statement. Up to the rule that looks for its first word no rule
is about the blanks of such a place, except behind `guard`; that rule writes a semicolon for them, which stands until
the corrections at the end.
-/

namespace SourceBundle.Swift

open Pattern Text

variable {marks : List String} {follows starts : List Char → Prop} {joins : Char → Bool} {before : Option Char}
  {a b g h k p r s u v w x y z after : List Char}

/-- A word that starts a statement on a line of its own, and the text behind it: a keyword that ends there, or
`default` with a colon. -/
inductive StatementWord : List Char → List Char → Prop
  | keyword {word : String} {y : List Char} (member : word ∈ statementKeywords) (stops : Stops isWord y) :
      StatementWord word.toList y
  | default {k y : List Char} (blank : Within isBlank k) : StatementWord "default".toList (k ++ ':' :: y)

def statementWords : List String := statementKeywords ++ ["default"]

theorem StatementWord.spelled (word : StatementWord z y) : ∃ text ∈ statementWords, z = text.toList := by
  cases word with
  | @keyword text _ member => exact ⟨text, by simp [statementWords, member], rfl⟩
  | default => exact ⟨"default", by decide, rfl⟩

theorem statementWords_letters : ∀ word ∈ statementWords,
    word.toList ≠ [] ∧ Within isInk word.toList ∧ Within isWord word.toList := by
  decide

theorem statementWords_head : ∀ word ∈ statementWords, ∃ c ∈ word.toList.head?, c ≠ '@' ∧ c ≠ 'e' := by
  decide

def ColonNext (y : List Char) : Prop := ∃ k r, y = k ++ ':' :: r ∧ Within isBlank k

theorem filter_blank (blank : Within isBlank g) : g.filter isSolid = [] := by
  rw [List.filter_eq_nil_iff]
  intro c member
  simp [isSolid, blank c member]

theorem colonNext_iff : ColonNext y ↔ (y.filter isSolid).head? = some ':' := by
  constructor
  · rintro ⟨k, r, rfl, blank⟩
    have colon : isSolid ':' = true := by decide
    simp [filter_blank blank, colon]
  · intro first
    obtain ⟨k, r, rfl, blank, stops⟩ := exists_run isBlank y
    rw [List.filter_append, filter_blank blank, List.nil_append] at first
    cases r with
    | nil => simp at first
    | cons c r =>
        have solid : isSolid c = true := by simpa [isSolid] using stops
        obtain rfl : c = ':' := by simpa [solid] using first
        exact ⟨k, r, rfl, blank⟩

theorem statementWord_iff : StatementWord z y ↔
    (∃ word ∈ statementKeywords, z = word.toList ∧ Stops isWord y) ∨ (z = "default".toList ∧ ColonNext y) := by
  constructor
  · intro word
    cases word with
    | @keyword text _ member stops => exact .inl ⟨text, member, rfl, stops⟩
    | @default k r blank => exact .inr ⟨rfl, k, r, rfl, blank⟩
  · rintro (⟨text, member, rfl, stops⟩ | ⟨rfl, k, r, rfl, blank⟩)
    · exact .keyword member stops
    · exact .default blank

theorem stops_move (outside : ∀ mark ∈ marks, Outside isWord mark.toList) (ended : ∃ c ∈ z.getLast?, isWord c = true)
    (move : Move marks follows starts (v ++ (z ++ a)) g h y) :
    Stops isWord (a ++ g ++ y) ↔ Stops isWord (a ++ h ++ y) := by
  cases a with
  | cons c a => simp
  | nil =>
      have spaced : ∀ {k : List Char}, Within isSpacing k → k ≠ [] → Stops isWord (k ++ y) := by
        intro k spacing nonempty
        obtain ⟨c, k, rfl⟩ := List.exists_cons_of_ne_nil nonempty
        exact (stops_cons _ _ _).2 (isWord_of_isSpacing (spacing c (by simp)))
      rw [List.nil_append, List.nil_append]
      refine iff_of_true (spaced move.spacing move.nonempty) ?_
      by_cases empty : h = []
      · subst empty
        cases move with
        | close _ _ beside =>
            obtain ⟨c, last, letter⟩ := ended
            have seam := seam_of_beside outside beside c (by simp [Option.mem_def.1 last])
            intro d first
            simpa [letter] using seam d first
        | space _ _ _ kept => exact absurd rfl kept
      · exact spaced move.spacing' empty

/-- The text starts with a character that is neither a blank nor a colon. -/
def Leads (y : List Char) : Prop := ∃ c ∈ y.head?, isBlank c = false ∧ c ≠ ':'

instance (y : List Char) : Decidable (Leads y) := inferInstanceAs (Decidable (∃ c ∈ y.head?, _))

theorem AttributeNext.leads (next : AttributeNext y) : Leads y := by
  obtain ⟨z, rfl⟩ := next
  exact ⟨'@', rfl, by decide⟩

theorem DefaultNext.leads (next : DefaultNext y) : Leads y := by
  obtain ⟨k, z, rfl, -⟩ := next
  exact ⟨'d', rfl, by decide⟩

theorem BeforeSpace.solid (place : BeforeSpace x) : ∃ c ∈ x.getLast?, isBlank c = false := by
  obtain ⟨c, last, ends⟩ := place.last
  exact ⟨c, last, isBlank_of_endsBeforeSpace ends⟩

theorem BehindKeyword.solid (place : BehindKeyword x) : ∃ c ∈ x.getLast?, isBlank c = false := by
  obtain ⟨c, last, letter⟩ := place
  have known : ∀ c ∈ ['n', 'h', 'e', 't'], isBlank c = false := by decide
  exact ⟨c, last, known c letter⟩

theorem not_attributeNext_word (spelled : ∃ text ∈ statementWords, z = text.toList) : ¬ AttributeNext (z ++ y) := by
  rintro ⟨r, same⟩
  obtain ⟨text, member, rfl⟩ := spelled
  obtain ⟨c, first, unlike, -⟩ := statementWords_head text member
  obtain ⟨w, spelled⟩ := List.head?_eq_some_iff.1 first
  rw [spelled] at same
  exact unlike (List.cons.inj same).1.symm

theorem KeywordNext.leads (next : KeywordNext y) : Leads y := by
  obtain ⟨word, member, z, rfl, -⟩ := next
  have first : ∀ word ∈ statementKeywords, Leads word.toList := by decide
  obtain ⟨c, head, solid, other⟩ := first word member
  obtain ⟨w, spelled⟩ := List.head?_eq_some_iff.1 head
  exact ⟨c, by simp [spelled], solid, other⟩

theorem not_keywordNext_default : ¬ KeywordNext ("default".toList ++ y) := by
  rintro ⟨word, member, z, same, -⟩
  have apart : ∀ word ∈ statementKeywords, ¬ word.toList <+: "default".toList ∧ ¬ "default".toList <+: word.toList := by
    decide
  have front : word.toList <+: "default".toList ++ y := ⟨z, same.symm⟩
  rcases List.prefix_or_prefix_of_prefix front (List.prefix_append _ y) with short | long
  · exact (apart word member).1 short
  · exact (apart word member).2 long

theorem colonNext_move (leads : ∀ y, starts y → Leads y) (move : Move marks follows starts x g h y) :
    ColonNext (a ++ g ++ y) ↔ ColonNext (a ++ h ++ y) := by
  have blanks : Within isBlank h → (ColonNext (a ++ g ++ y) ↔ ColonNext (a ++ h ++ y)) := by
    intro blank
    simp only [colonNext_iff, List.filter_append, filter_blank move.blank, filter_blank blank]
  cases move with
  | close => exact blanks (within_nil _)
  | space _ _ blank => exact blanks blank
  | separate blank _ next =>
      obtain ⟨c, first, solid, other⟩ := leads y next
      obtain ⟨y, rfl⟩ := List.head?_eq_some_iff.1 first
      have solid' : isSolid c = true := by simp [isSolid, solid]
      have mark : isSolid ';' = true := by decide
      simp only [colonNext_iff, List.filter_append, filter_blank blank, List.append_nil, List.filter_cons, solid', mark,
        if_true, List.filter_nil]
      cases a.filter isSolid with
      | nil => simp [other]
      | cons => simp

theorem statementWord_move (outside : ∀ mark ∈ marks, Outside isWord mark.toList) (leads : ∀ y, starts y → Leads y)
    (move : Move marks follows starts (v ++ (z ++ a)) g h y) :
    StatementWord z (a ++ g ++ y) ↔ StatementWord z (a ++ h ++ y) := by
  rw [statementWord_iff, statementWord_iff, colonNext_move leads move]
  refine or_congr_left ?_
  have ended : ∀ word ∈ statementKeywords, ∃ c ∈ word.toList.getLast?, isWord c = true := by decide
  constructor
  · rintro ⟨word, member, rfl, stops⟩
    exact ⟨word, member, rfl, (stops_move outside (ended word member) move).1 stops⟩
  · rintro ⟨word, member, rfl, stops⟩
    exact ⟨word, member, rfl, (stops_move outside (ended word member) move).2 stops⟩

theorem not_beside_gap (outside : ∀ mark ∈ marks, Outside joins mark.toList) (within : Within joins w)
    (letters : ∀ c, isWord c = true → joins c = true) (blanks : ∀ c, isBlank c = true → joins c = true)
    (filled : w ≠ []) (letter : ∃ c ∈ z.head?, isWord c = true) (blank : Within isBlank a) (blank' : Within isBlank b) :
    ¬ Beside marks (v ++ (w ++ a)) (b ++ (z ++ r)) := by
  intro beside
  obtain ⟨d, last, joined⟩ : ∃ d ∈ (v ++ (w ++ a)).getLast?, joins d = true := by
    rcases List.eq_nil_or_concat a with rfl | ⟨a, d, rfl⟩
    · obtain ⟨w, d, rfl⟩ := (List.eq_nil_or_concat w).resolve_left filled
      exact ⟨d, by simp, within d (by simp)⟩
    · exact ⟨d, by simp, blanks d (blank d (by simp))⟩
  obtain ⟨e, first, joined'⟩ : ∃ e ∈ (b ++ (z ++ r)).head?, joins e = true := by
    cases b with
    | nil =>
        obtain ⟨c, first, word⟩ := letter
        obtain ⟨z, rfl⟩ := List.head?_eq_some_iff.1 first
        exact ⟨c, by simp, letters c word⟩
    | cons e b => exact ⟨e, by simp, blanks e (blank' e (by simp))⟩
  have apart := seam_of_beside outside beside d last e first
  simp [joined, joined'] at apart

theorem move_in_gap (outside : ∀ mark ∈ marks, Outside joins mark.toList) (within : Within joins w)
    (letters : ∀ c, isWord c = true → joins c = true) (blanks : ∀ c, isBlank c = true → joins c = true)
    (solid : ∀ x, follows x → ∃ c ∈ x.getLast?, isBlank c = false) (filled : w ≠ [])
    (leads : ∀ y, starts y → Leads y) (unstarted : '\n' ∈ g → ¬ starts (z ++ r))
    (spelled : ∃ text ∈ statementWords, z = text.toList) (blank : Within isBlank a) (blank' : Within isBlank b)
    (move : Move marks follows starts (v ++ (w ++ a)) g h (b ++ (z ++ r))) :
    a = [] ∧ follows (v ++ w) ∧ Within isBlank h ∧ h ≠ [] := by
  obtain ⟨text, member, rfl⟩ := spelled
  obtain ⟨filled', -, letter⟩ := statementWords_letters text member
  obtain ⟨c, z, spelled⟩ := List.exists_cons_of_ne_nil filled'
  -- No mark is beside the gap, and no semicolon is written for its line break, so other blanks come behind `w`.
  cases move with
  | close _ _ beside =>
      have word : ∃ c ∈ text.toList.head?, isWord c = true := ⟨c, by simp [spelled], letter c (by simp [spelled])⟩
      exact absurd beside (not_beside_gap outside within letters blanks filled word blank blank')
  | space _ _ blank'' kept place =>
      rcases place with after | next
      · obtain ⟨d, last, other⟩ := solid _ after
        rcases List.eq_nil_or_concat a with rfl | ⟨a, e, rfl⟩
        · exact ⟨rfl, by simpa using after, blank'', kept⟩
        · obtain rfl : e = d := by simpa using last
          simp [blank e (by simp)] at other
      · exfalso
        obtain ⟨t, next⟩ := next
        cases b with
        | nil =>
            obtain ⟨e, first, -, other⟩ := statementWords_head text member
            obtain rfl : c = e := by simpa [spelled] using first
            rw [spelled] at next
            exact other (List.cons.inj next).1.symm
        | cons e b =>
            have other := blank' e (by simp)
            obtain rfl : 'e' = e := (List.cons.inj next).1
            exact absurd other (by decide)
  | separate _ broken next =>
      exfalso
      cases b with
      | nil => exact unstarted broken next
      | cons e b =>
          obtain ⟨d, first, other, -⟩ := leads _ next
          obtain rfl : e = d := by simpa using first
          simp [blank' e (by simp)] at other

/-- Blanks with a line break among them. -/
def BrokenGap (k : List Char) : Prop := Within isBlank k ∧ '\n' ∈ k

/-- No gap is closed between the text and a word: the marks end and start with characters of another class than the text,
words and blanks. -/
def Unclosed (marks : List String) (w : List Char) : Prop :=
  ∃ joins : Char → Bool, (∀ mark ∈ marks, Outside joins mark.toList ∧ Outside isWord mark.toList) ∧ Within joins w ∧
    (∀ c, isWord c = true → joins c = true) ∧ ∀ c, isBlank c = true → joins c = true

theorem unclosed_nil (w : List Char) : Unclosed [] w :=
  ⟨fun _ => true, by simp, within_true w, fun _ _ => rfl, fun _ _ => rfl⟩

section place

variable (unclosed : Unclosed marks w) (solid : ∀ x, follows x → ∃ c ∈ x.getLast?, isBlank c = false)
  (leads : ∀ y, starts y → Leads y) (inked : Within isInk w) (filled : w ≠ [])
  (spelled : ∃ text ∈ statementWords, z = text.toList)
include unclosed solid leads inked filled spelled

theorem Shifted.stands_word (gaps : ∀ k, P k → Within isBlank k)
    (unstarted : ∀ k r, P k → '\n' ∈ k → ¬ starts (z ++ r))
    (spaced : ∀ v g h b, follows (v ++ w) → Within isBlank h → h ≠ [] → P (g ++ b) → P (h ++ b))
    (shifted : Shifted marks follows starts s s') (here : Stands w z P (StatementWord z) p s) :
    Stands w z P (StatementWord z) p s' := by
  obtain ⟨joins, outside, within, letters, blanks⟩ := unclosed
  obtain ⟨text, member, same⟩ := spelled
  obtain ⟨filled', inked', -⟩ := statementWords_letters text member
  refine Shifted.stands inked (same ▸ inked') filled (same ▸ filled') ?_ ?_ shifted here
  · intro v a g h b r _ holds move
    have blank := gaps _ holds
    simp only [within_append] at blank
    obtain ⟨rfl, after, blank', kept⟩ := move_in_gap (fun mark known => (outside mark known).1) within letters blanks solid
      filled leads (fun broken => unstarted _ r holds (by simp [broken])) ⟨text, member, same⟩ blank.1.1 blank.2 move
    exact spaced v g h b after blank' kept holds
  · intro v a g h y move
    exact (statementWord_move (fun mark known => (outside mark known).2) leads move).1

theorem Shifted.stands_word_of (gaps : ∀ k, P k → Within isBlank k) (unstarted : ∀ r, ¬ starts (z ++ r))
    (apart : ∀ v, ¬ follows (v ++ w)) (shifted : Shifted marks follows starts s s')
    (there : Stands w z P (StatementWord z) p s') : Stands w z P (StatementWord z) p s := by
  obtain ⟨joins, outside, within, letters, blanks⟩ := unclosed
  obtain ⟨text, member, same⟩ := spelled
  obtain ⟨filled', inked', word⟩ := statementWords_letters text member
  have within' : Within joins z := same ▸ word.mono letters
  refine Shifted.stands_of inked (same ▸ inked') filled (same ▸ filled') (fun mark known => (outside mark known).1) within
    within' ?_ ?_ shifted there
  · intro v a g h b r _ holds move
    have blank := gaps _ holds
    simp only [within_append] at blank
    obtain ⟨-, after, -⟩ := move_in_gap (fun mark known => (outside mark known).1) within letters blanks solid filled leads
      (fun _ => unstarted r) ⟨text, member, same⟩ blank.1.1 blank.2 move
    exact absurd after (apart v)
  · intro v a g h y move
    exact (statementWord_move (fun mark known => (outside mark known).2) leads move).2

end place

theorem Shifted.stands_separated (inked : Within isInk w) (inked' : Within isInk z) (filled : w ≠ []) (filled' : z ≠ [])
    (shifted : Shifted marks follows starts s s') (here : Stands w z (· = [';']) (fun _ => True) p s) :
    Stands w z (· = [';']) (fun _ => True) p s' := by
  refine Shifted.stands inked inked' filled filled' ?_ (fun _ _ _ _ _ _ => id) shifted here
  intro v a g h b r _ separator move
  obtain ⟨c, g, rfl⟩ := List.exists_cons_of_ne_nil move.nonempty
  have blank : isBlank c = true := move.blank c (by simp)
  obtain rfl : c = ';' := by
    have member : c ∈ a ++ c :: g ++ b := by simp
    simpa [separator] using member
  exact absurd blank (by decide)

end SourceBundle.Swift
