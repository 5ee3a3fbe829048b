import SourceBundle.Proofs.Production.Separating

/-!
Where the separators of a text without semicolons come from: each stands behind the end of a line of which the next one
starts with an attribute or a statement word. Behind a comma, an opening bracket or an equals sign none is taken back.
-/

namespace SourceBundle

open Text

theorem infix_of_infix_append {v w out : List Char} (apart : ∀ c ∈ w, c ∉ v) (inside : w <:+: v ++ out) : w <:+: out := by
  induction v with
  | nil => exact inside
  | cons d v ih =>
      rcases List.infix_cons_iff.1 inside with front | inside
      · rcases List.prefix_cons_iff.1 front with rfl | ⟨t, rfl, -⟩
        · exact List.nil_infix
        · exact absurd (List.mem_cons_self) (apart d List.mem_cons_self)
      · exact ih (fun c member here => apart c member (List.mem_cons_of_mem d here)) inside

namespace Pattern

variable {m : Pattern} {k : Char → Bool} {before : Option Char} {s w out : List Char}

theorem Swept.infix_of (writes : ∀ b u after v, m.Reads b u after v → v ≠ [] ∧ ∀ c ∈ v, k c = false)
    (within : Within k w) (swept : Swept m before s out) (inside : w <:+: out) : w <:+: s := by
  have head : m.Writes fun c => !k c := by
    intro b u after v reads
    obtain ⟨nonempty, other⟩ := writes b u after v reads
    obtain ⟨c, v, rfl⟩ := List.exists_cons_of_ne_nil nonempty
    exact ⟨c, v, rfl, by simp [other c (by simp)]⟩
  induction swept with
  | done => exact inside
  | @step before u after v out reads nonempty later ih =>
      refine (ih (infix_of_infix_append (fun c member written => ?_) inside)).trans (List.suffix_append u after).isInfix
      simpa [within c member] using (writes _ _ _ _ reads).2 c written
  | @skip before c s out fails later ih =>
      rcases List.infix_cons_iff.1 inside with front | inside
      · cases w with
        | nil => exact List.nil_infix
        | cons d w =>
            obtain ⟨rfl, z, rfl⟩ : d = c ∧ w <+: out := List.cons_prefix_cons.1 front
            rw [within_cons] at within
            obtain ⟨rest, rfl, -⟩ :=
              later.copied (head.quiet (by simp) fun _ => True) (fun _ _ => trivial) trivial within.2
            exact ⟨[], rest, rfl⟩
      · exact List.infix_cons (ih inside)

end Pattern

namespace Swift

open Pattern

variable {m : Pattern} {marks : List String} {follows starts : List Char → Prop} {before : Option Char} {c : Char}
  {g p s s' u v w x y z after out : List Char}

/-- Blanks apart, no semicolon comes behind the character. -/
def Unseparated (c : Char) (s : List Char) : Prop := (s.filter isSolid).IsChain fun d e => d = c → e ≠ ';'

def Gapless (c : Char) (starts : List Char → Prop) (s : List Char) : Prop :=
  ∀ x g y, s = x ++ c :: (g ++ y) → BrokenGap g → ¬ starts y

/-- Every reading writes a semicolon for a broken gap, and what comes behind that as far as it is no blank; it does not
end with the character. -/
def SeparatesBut (c : Char) (starts : List Char → Prop) (m : Pattern) : Prop :=
  ∀ before u after v, m.Reads before u after v → ∃ g t t', u = g ++ t ∧ v = ';' :: t' ∧ BrokenGap g ∧
    starts (t ++ after) ∧ t'.filter isSolid = t.filter isSolid ∧ ∀ e ∈ (t.filter isSolid).getLast?, e ≠ c

theorem Gapless.suffix (gapless : Gapless c starts (u ++ s)) : Gapless c starts s := by
  rintro x g y rfl
  exact gapless (u ++ x) g y (by simp)

theorem filter_cons_blank {d : Char} (blank : isBlank d = true) : (d :: s).filter isSolid = s.filter isSolid := by
  simp [isSolid, blank]

theorem filter_cons_solid {d : Char} (solid : isBlank d = false) : (d :: s).filter isSolid = d :: s.filter isSolid := by
  simp [isSolid, solid]

theorem head_separated (separates : SeparatesBut c starts m) (swept : Swept m before s out)
    (first : (out.filter isSolid).head? = some ';') :
    (s.filter isSolid).head? = some ';' ∨ ∃ g y, s = g ++ y ∧ BrokenGap g ∧ starts y := by
  induction swept with
  | done => exact .inl first
  | @step before u after v out reads _ _ _ =>
      obtain ⟨g, t, -, rfl, -, broken, next, -⟩ := separates _ _ _ _ reads
      exact .inr ⟨g, t ++ after, by simp, broken, next⟩
  | @skip before d s out _ _ ih =>
      by_cases blank : isBlank d = true
      · rw [filter_cons_blank blank] at first ⊢
        rcases ih first with before | ⟨g, y, rfl, broken, next⟩
        · exact .inl before
        · exact .inr ⟨d :: g, y, rfl, ⟨by simpa using ⟨blank, broken.1⟩, by simp [broken.2]⟩, next⟩
      · rw [filter_cons_solid (by simpa using blank)] at first ⊢
        exact .inl first

theorem unseparated_swept (separates : SeparatesBut c starts m) (other : ';' ≠ c) (swept : Swept m before s out)
    (gapless : Gapless c starts s) (every : Unseparated c s) : Unseparated c out := by
  unfold Unseparated at every ⊢
  induction swept with
  | done => exact every
  | @step before u after v out reads _ _ ih =>
      obtain ⟨g, t, t', rfl, rfl, broken, -, same, last⟩ := separates _ _ _ _ reads
      rw [List.filter_append, List.filter_append, List.isChain_append, List.isChain_append] at every
      have solid : isBlank ';' = false := by decide
      rw [List.filter_append, filter_cons_solid solid, same, List.isChain_append]
      refine ⟨List.isChain_cons.2 ⟨fun _ _ absurd' => absurd absurd' other, every.1.2.1⟩, ih gapless.suffix every.2.1, ?_⟩
      rintro d ends e - rfl
      cases written : t.filter isSolid with
      | nil =>
          rw [written] at ends
          exact absurd (by simpa using ends) other
      | cons b r =>
          rw [written, List.getLast?_cons_cons] at ends
          exact absurd rfl (last d (by rwa [written]))
  | @skip before d s out _ later ih =>
      have onward : Gapless c starts s := Gapless.suffix (u := [d]) gapless
      by_cases blank : isBlank d = true
      · rw [filter_cons_blank blank] at every ⊢
        exact ih onward every
      · have solid : isBlank d = false := by simpa using blank
        rw [filter_cons_solid solid, List.isChain_cons] at every ⊢
        refine ⟨?_, ih onward every.2⟩
        rintro e first rfl rfl
        rcases head_separated separates later first with before | ⟨g, y, rfl, broken, next⟩
        · exact every.1 ';' before rfl rfl
        · exact gapless [] g y rfl broken next

theorem attributeLine_separates (other : endsAttribute c = false) : SeparatesBut c LeadsAttribute attributeLine := by
  intro before u after v reads
  obtain ⟨_, h, _, _, rfl, rfl, lower, space⟩ := (reads_append _ _ _ _ _ _).1 reads
  obtain ⟨g, _, _, a, rfl, rfl, separator, use⟩ := (reads_append _ _ _ _ _ _).1 lower
  obtain ⟨blank, nonempty, -, opens, rfl⟩ := reads_separated.1 separator
  obtain ⟨blank', nonempty', -, rfl⟩ := reads_oneSpace.1 space
  obtain ⟨rfl, -, r, e, spelled, ends⟩ := reads_attributeUse use
  have broken : '\n' ∈ g := newline_mem nonempty opens
  have space : [' '].filter isSolid = [] := by decide
  refine ⟨g, a ++ h, a ++ [' '], by simp, by simp, ⟨blank, broken⟩, ⟨a, h ++ after, by simp, ?_, ?_⟩, ?_, ?_⟩
  · have line : lastOf before g = some '\n' := by
      obtain ⟨k, d, rfl⟩ := (List.eq_nil_or_concat g).resolve_left nonempty
      simpa using opens
    rwa [line] at use
  · obtain ⟨d, h, rfl⟩ := List.exists_cons_of_ne_nil nonempty'
    exact ⟨d, rfl, blank' d (by simp)⟩
  · simp [filter_blank blank', space]
  · have solid : isSolid e = true := isSolid_of_endsAttribute ends
    rintro d last rfl
    obtain rfl : e = d := by simpa [filter_blank blank', spelled, solid] using last
    simp [ends] at other

theorem keywordLine_separates (other : ∀ d ∈ ['r', 'h', 'n', 'e'], d ≠ c) : SeparatesBut c KeywordNext keywordLine := by
  intro before u after v reads
  obtain ⟨g, word, member, rfl, rfl, blank, nonempty, opens, stops⟩ := reads_keywordLine.1 reads
  refine ⟨g, _, _, rfl, rfl, ⟨blank, newline_mem nonempty opens⟩, ⟨word, member, after, rfl, stops⟩, rfl, ?_⟩
  have ends : ∀ word ∈ statementKeywords, ∀ e ∈ (word.toList.filter isSolid).getLast?, e ∈ ['r', 'h', 'n', 'e'] := by
    decide
  exact fun e last => other e (ends word member e last)

theorem defaultLine_separates (other : ':' ≠ c) : SeparatesBut c DefaultNext defaultLine := by
  intro before u after v reads
  obtain ⟨g, h, rfl, rfl, blank, nonempty, opens, blank'⟩ := reads_defaultLine.1 reads
  refine ⟨g, "default".toList ++ h ++ [':'], _, by simp, rfl, ⟨blank, newline_mem nonempty opens⟩,
    ⟨h, after, by simp, blank'⟩, rfl, ?_⟩
  have colon : isSolid ':' = true := by decide
  intro e last
  obtain rfl : ':' = e := by simpa [colon] using last
  exact other

theorem filter_shifted (shifted : Shifted marks follows (fun _ => False) s s') :
    s'.filter isSolid = s.filter isSolid := by
  induction shifted with
  | refl => rfl
  | tail _ step ih =>
      obtain ⟨move⟩ := step
      rw [← ih]
      cases move with
      | close blank => simp [filter_blank blank]
      | space blank _ blank' => simp [filter_blank blank, filter_blank blank']
      | separate _ _ next => exact next.elim

theorem reduced_mem {d : Char} (member : d ∈ reduced false s) : d ∈ s := by
  refine RuleSet.applyAll_keeps (P := fun z => d ∈ z → d ∈ s) ?_ id member
  intro rule inside z here written
  obtain ⟨body, pattern, advances⟩ := removal_drops inside
  rw [Rule.apply, pattern] at written
  exact here ((rewrite_swept advances z).mem (fun _ _ _ _ reads => (reads_drop.1 reads).1) written)

def LeadsStatement (y : List Char) : Prop := LeadsAttribute y ∨ ∃ z r, y = z ++ r ∧ StatementWord z r

/-- A mark behind which a line goes on, as the rules see it. -/
structure OpenMark (c : Char) : Prop where
  inked : Within isInk [c]
  starts : StartsApart [c]
  ends : endsAttribute c = false
  unspaced : endsBeforeSpace c = false
  other : ∀ d ∈ ['\x7b', '\x7d', ':', ';', ' ', 'i', 'n', 'r', 'h', 'e'], d ≠ c

theorem openMark (mark : c ∈ [',', '(', '[', '=']) : OpenMark c := by
  simp only [List.mem_cons, List.not_mem_nil, or_false] at mark
  rcases mark with rfl | rfl | rfl | rfl <;> exact ⟨by decide, by decide, by decide, by decide, by decide⟩

theorem OpenMark.solid (mark : OpenMark c) : isSolid c = true := by
  simp [isSolid, isBlank_of_isInk (mark.inked c (by simp))]

theorem Unseparated.not_adjacent (every : Unseparated c (x ++ c :: ';' :: y)) (solid : isSolid c = true) : False := by
  have solid' : isSolid ';' = true := by decide
  rw [Unseparated, List.isChain_iff_forall_rel_of_append_cons_cons] at every
  have split : (x ++ c :: ';' :: y).filter isSolid = x.filter isSolid ++ c :: ';' :: y.filter isSolid := by
    simp [solid, solid']
  exact every split rfl rfl

theorem unseparated_of_not_mem (plain : ';' ∉ s) : Unseparated c s := by
  rw [Unseparated, List.isChain_iff_forall_rel_of_append_cons_cons]
  rintro d e x y same - rfl
  have member : ';' ∈ s.filter isSolid := by simp [same]
  exact plain (List.mem_filter.1 member).1

theorem separator_not_mem (plain : ';' ∉ s) : ';' ∉ stage 2 (reduced false s) := by
  intro member
  have solid : ';' ∈ (stage 2 (reduced false s)).filter isSolid := List.mem_filter.2 ⟨member, by decide⟩
  rw [filter_shifted (stage_operators _)] at solid
  exact plain (reduced_mem (List.mem_filter.1 solid).1)

section mark

variable (mark : OpenMark c)
include mark

theorem stage_gap_iff (spelled : ∃ text ∈ statementWords, z = text.toList) :
    Stands [c] z BrokenGap (StatementWord z) p (stage 8 s) ↔ Stands [c] z BrokenGap (StatementWord z) p (stage 2 s) := by
  have plain : ∀ {q : Char → Bool}, q '\x7b' = false → q '\x7d' = false → ∀ d, q d = true →
      (d != '\x7b' && d != '\x7d') = true := by
    intro q opens closes d inside
    rw [Bool.and_eq_true, bne_iff_ne, bne_iff_ne]
    constructor <;> rintro rfl <;> simp_all
  have unclosed : Unclosed braces [c] :=
    ⟨fun d => d != '\x7b' && d != '\x7d', by decide,
      by simp [Ne.symm (mark.other '\x7b' (by simp)), Ne.symm (mark.other '\x7d' (by simp))],
      plain (by decide) (by decide), plain (by decide) (by decide)⟩
  have apart : ∀ v, ¬ BeforeSpace (v ++ [c]) := by
    intro v place
    obtain ⟨d, last, ends⟩ := place.last
    obtain rfl : c = d := by simpa using last
    simp [mark.unspaced] at ends
  constructor
  · exact Shifted.stands_word_of unclosed (fun _ => BeforeSpace.solid) (fun _ => AttributeNext.leads) mark.inked (by simp)
      spelled (fun _ => And.left) (fun _ => not_attributeNext_word spelled) apart (stage_attributes s)
  · exact Shifted.stands_word unclosed (fun _ => BeforeSpace.solid) (fun _ => AttributeNext.leads) mark.inked (by simp)
      spelled (fun _ => And.left) (fun _ _ _ _ => not_attributeNext_word spelled)
      (fun v _ _ _ place => absurd place (apart v)) (stage_attributes s)

theorem unseparated_stage (plain : ';' ∉ stage 2 s)
    (gapless : Gapless c LeadsStatement (stage 2 s)) : Unseparated c (stage 15 s) := by
  -- The gaps in front of statement words are those of the text whose operators are closed up.
  have none : ∀ z y x k, StatementWord z y → stage 8 s = x ++ ([c] ++ (k ++ (z ++ y))) → ¬ BrokenGap k := by
    intro z y x k word same broken
    obtain ⟨x, k, y, same, -, broken, word⟩ := (stage_gap_iff mark word.spelled).1 ⟨x, k, y, same, rfl, broken, word⟩
    exact gapless x k (z ++ y) same broken (.inr ⟨z, y, rfl, word⟩)
  have keywords : Gapless c KeywordNext (stage 8 s) := by
    rintro x k _ same broken ⟨word, member, y, rfl, stops⟩
    exact none word.toList y x k (.keyword member stops) same broken
  have defaults : Gapless c DefaultNext (stage 9 s) := by
    rintro x k _ same broken ⟨h, y, rfl, blank⟩
    have word : StatementWord "default".toList (h ++ ':' :: y) := .default blank
    obtain ⟨x, k, y, same, -, broken, word⟩ := Shifted.stands_word_of (unclosed_nil [c]) (by simp)
      (fun _ => KeywordNext.leads) mark.inked (by simp) word.spelled (fun _ (gap : BrokenGap _) => gap.1)
      (fun _ => not_keywordNext_default) (by simp) (stage_keywords s) ⟨x, k, _, same, rfl, broken, word⟩
    exact none _ y x k word same broken
  have attributes : Unseparated c (stage 3 s) :=
    unseparated_swept (attributeLine_separates mark.ends) (mark.other ';' (by simp))
      (rewrite_swept attributeLine_advances _) (fun x g y same broken next => gapless x g y same broken (.inl next))
      (unseparated_of_not_mem plain)
  have layout : Unseparated c (stage 8 s) := by
    rwa [Unseparated, filter_shifted (stage_layout s)]
  have written : Unseparated c (stage 9 s) :=
    unseparated_swept (keywordLine_separates (by simp [mark.other])) (mark.other ';' (by simp))
      (rewrite_swept keywordLine_advances _) keywords layout
  have written' : Unseparated c (stage 10 s) :=
    unseparated_swept (defaultLine_separates (mark.other ':' (by simp))) (mark.other ';' (by simp))
      (rewrite_swept defaultLine_advances _) defaults written
  rwa [Unseparated, filter_shifted (stage_punctuation s)]

/-- A semicolon behind the mark stays there in front of an attribute or a statement word. -/
theorem kept_separator (start : z ∈ statementWords.map String.toList ++ [['@']])
    (here : Stands [c] z (· = [';']) (fun _ => True) p (stage 15 s)) : ∃ x y, stage 18 s = x ++ c :: ';' :: y := by
  obtain ⟨-, -, off, braces, colons, semicolons⟩ := statementWords_apart z start
  have corrected := stage_corrected mark.starts (by simp [mark.other, braces]) (by simp [mark.other, colons]) here
  have last : Stands [c] z (· = [';']) (fun _ => True) p (stage 18 s) := by
    refine stands_separatorAfterIn mark.starts (by simp [mark.other]) semicolons off (fun r split => ?_) corrected
    have long := congrArg List.length split
    simp at long
  obtain ⟨x, _, y, same, -, rfl, -⟩ := last
  exact ⟨x, z ++ y, by simpa using same⟩

theorem separator_before_corrections (inside : [c, ';'] <:+: stage 18 s) : [c, ';'] <:+: stage 15 s := by
  have within : Within (fun d => d == c || d == ';') [c, ';'] := by simp
  have after : ∀ (text : String), (text.toList ≠ [] ∧ ∀ d ∈ text.toList, (d == c || d == ';') = false) → ∀ b u rest v,
      (separatorAfter text).Reads b u rest v → v ≠ [] ∧ ∀ d ∈ v, (d == c || d == ';') = false := by
    intro text known b u rest v reads
    obtain ⟨-, rfl⟩ := reads_separatorAfter.1 reads
    exact known
  have closure : ∀ b u rest v, separatorAfterIn.Reads b u rest v → v ≠ [] ∧ ∀ d ∈ v, (d == c || d == ';') = false := by
    intro b u rest v reads
    obtain ⟨-, rfl, -⟩ := reads_separatorAfterIn.1 reads
    exact ⟨by decide, by simp [mark.other]⟩
  have third : [c, ';'] <:+: stage 17 s :=
    (rewrite_swept separatorAfterIn_advances (stage 17 s)).infix_of closure within inside
  have second : [c, ';'] <:+: stage 16 s :=
    (rewrite_swept (p := separatorAfter ":") separatorAfter_advances (stage 16 s)).infix_of
      (after ":" ⟨by decide, by simp [mark.other]⟩) within third
  exact (rewrite_swept (p := separatorAfter "\x7b") separatorAfter_advances (stage 15 s)).infix_of
    (after "\x7b" ⟨by decide, by simp [mark.other]⟩) within second

end mark

theorem separator_through_layout (inked : Within isInk w) (inked' : Within isInk z) (filled : w ≠ []) (filled' : z ≠ [])
    (here : Stands w z (· = [';']) (fun _ => True) p (stage 3 s)) :
    Stands w z (· = [';']) (fun _ => True) p (stage 15 s) := by
  have layout : Shifted braces BeforeSpace (fun _ => False) (stage 3 s) (stage 8 s) := stage_layout s
  have stays : ∀ {marks follows starts} {s s' : List Char}, Shifted marks follows starts s s' →
      Stands w z (· = [';']) (fun _ => True) p s → Stands w z (· = [';']) (fun _ => True) p s' :=
    fun shifted => Shifted.stands_separated inked inked' filled filled' shifted
  exact stays (stage_punctuation s) (stays (stage_defaults s) (stays (stage_keywords s) (stays layout here)))

/-- Behind a comma, an opening bracket or an equals sign the production profile writes a semicolon exactly where, its
operators closed up, the text has the mark at the end of a line and an attribute or a statement word at the start of the
next one. -/
theorem separated_rewrite_iff (mark : c ∈ [',', '(', '[', '=']) (plain : ';' ∉ s) :
    (∃ x y, (ruleSet ⟨false, true⟩).rewrite s = x ++ c :: ';' :: y) ↔
      ∃ x g y, stage 2 (reduced false s) = x ++ c :: (g ++ y) ∧ BrokenGap g ∧ LeadsStatement y := by
  have marked := openMark mark
  have last : (ruleSet ⟨false, true⟩).rewrite s = stage 18 (reduced false s) := rewrite_eq false s
  have tidy : Tidy (reduced false s) := ⟨(reduced_linesStart false s).1, reduced_leads false plain⟩
  rw [last]
  constructor
  · rintro ⟨x, y, same⟩
    by_contra none
    have gapless : Gapless c LeadsStatement (stage 2 (reduced false s)) := fun x g y split broken next =>
      none ⟨x, g, y, split, broken, next⟩
    have every := unseparated_stage marked (separator_not_mem plain) gapless
    have inside : [c, ';'] <:+: stage 18 (reduced false s) := ⟨x, y, by simp [same]⟩
    obtain ⟨x, y, written⟩ := separator_before_corrections marked inside
    rw [← written, List.append_assoc] at every
    exact every.not_adjacent marked.solid
  · rintro ⟨x, g, y, same, broken, next | ⟨z, r, rfl, word⟩⟩
    · obtain ⟨a, r, rfl, use, -⟩ := id next
      obtain ⟨-, t, rfl, -⟩ := attributeUse_spelling use
      have written : Stands [c] ['@'] (· = [';']) (fun _ => True) (ink x) (stage 3 (reduced false s)) :=
        stands_attributeLine marked.inked ⟨c, rfl, marked.ends⟩ (stage_tidy 2 tidy).flush
          ⟨x, g, t ++ r, same, rfl, broken, next⟩
      exact kept_separator marked (by simp)
        (separator_through_layout marked.inked (by decide) (by simp) (by simp) written)
    · obtain ⟨text, member, rfl⟩ := word.spelled
      have place := (stage_gap_iff marked ⟨text, member, rfl⟩).2 ⟨x, g, r, same, rfl, broken, word⟩
      have start : text.toList ∈ statementWords.map String.toList := List.mem_map_of_mem member
      exact kept_separator marked (List.mem_append_left _ start)
        (stage_separated tidy marked.inked marked.starts ⟨text, member, rfl⟩ place)

theorem separated_rewrite_initialiser :
    (('=' ∈ [',', '(', '[', '=']) ∧ (';' ∉ "let a =\nswitch b \x7b\n\x7d\n".toList)) ∧
      ∃ x y, (ruleSet ⟨false, true⟩).rewrite "let a =\nswitch b \x7b\n\x7d\n".toList = x ++ '=' :: ';' :: y :=
  ⟨by decide, (separated_rewrite_iff (by decide) (by decide)).2 ⟨"let a ".toList, ['\n'], "switch b \x7b\n\x7d\n".toList,
    by decide +kernel, ⟨by decide, by decide⟩,
    .inr ⟨"switch".toList, " b \x7b\n\x7d\n".toList, rfl, .keyword (by decide) (by decide)⟩⟩⟩

/-- The attribute of a first parameter on a line of its own is taken for the start of a statement. -/
theorem separated_rewrite_parameter :
    (';' ∉ "func f(\n    @MainActor g: G) \x7b\x7d\n".toList) ∧
      ∃ x y, (ruleSet ⟨false, true⟩).rewrite "func f(\n    @MainActor g: G) \x7b\x7d\n".toList = x ++ '(' :: ';' :: y :=
  ⟨by decide, "func f".toList, "@MainActor g:G) \x7b\x7d\n".toList, by decide +kernel⟩

end Swift

end SourceBundle
