import SourceBundle.Proofs.Production.Separating

/-!
The boundary between a line that ends with a member access and a statement on the next line. It becomes a semicolon but
for two kinds of names: behind one that ends with the word `in` the semicolon is taken for that of a closure head, and
behind one that ends with `guard` the rules for guards may take the line break first.
-/

namespace SourceBundle.Swift

open Pattern Text

variable {marks : List String} {c : Char} {b g h k name p s u v w word x y z : List Char}

def isNamePart (c : Char) : Bool :=
  isIdentifierPart c || c == '$' || c == '\x60' || (decide (128 ≤ c.toNat) && !isBlank c)

theorem isNamePart_of_isBlank (blank : isBlank c = true) : isNamePart c = false :=
  of_isBlank (P := fun c => isNamePart c = false) (by decide +kernel) blank

theorem isInk_of_isNamePart (part : isNamePart c = true) : isInk c = true := by
  rw [isInk, Bool.not_eq_true', Bool.eq_false_iff]
  intro spacing
  rcases isSpacing_iff.1 spacing with blank | rfl
  · simp [isNamePart_of_isBlank blank] at part
  · exact absurd part (by decide)

def markCharacters : List Char := "<>=+-*/%&|^!\x7b\x7d:,".toList

def isUnmarked (c : Char) : Bool := !markCharacters.contains c

theorem isUnmarked_of {q : Char → Bool} (other : ∀ m ∈ markCharacters, q m = false) (c : Char) (inside : q c = true) :
    isUnmarked c = true := by
  rw [isUnmarked, Bool.not_eq_true', Bool.eq_false_iff]
  intro member
  simp [other c (by simpa using member)] at inside

theorem suffix_behind (absent : c ∉ u) (ends : u <:+ v ++ c :: z) : u <:+ z := by
  rcases List.suffix_or_suffix_of_suffix ends (List.suffix_append v (c :: z)) with inside | beyond
  · rcases List.suffix_cons_iff.1 inside with rfl | inside
    · simp at absent
    · exact inside
  · exact absurd (beyond.subset (by simp)) absent

theorem guard_of_beforeSpace (named : Within isNamePart name) (place : BeforeSpace (v ++ '.' :: name)) :
    "guard".toList <:+ name := by
  rcases place with ⟨a, ⟨-, t, rfl, letters | ⟨r, rfl⟩⟩, ends⟩ | ends | ends
  · have inside := suffix_behind (by
      rw [List.mem_cons, not_or]
      exact ⟨by decide, fun member => absurd (letters '.' member) (by decide)⟩) ends
    exact absurd (named '@' (inside.subset (by simp))) (by decide)
  · have last : [')'] <:+ '@' :: (r ++ [')']) := ⟨'@' :: r, rfl⟩
    have inside := suffix_behind (by decide) (last.trans ends)
    exact absurd (named ')' (inside.subset (by simp))) (by decide)
  · exact suffix_behind (by decide) ends
  · have inside := suffix_behind (by decide) ends
    exact absurd (named '\x7b' (inside.subset (by decide))) (by decide)

/-- What may stand between a member access and a statement word before the rules for the latter. -/
def Boundary (name k : List Char) : Prop := Within isBlank k ∧ k ≠ [] ∧ ('\n' ∈ k ∨ "guard".toList <:+ name)

/-- The name ends as the head of a closure does. -/
def EndsClosureHead (name : List Char) : Prop := ∃ r, name = r ++ "in".toList ∧ Apart (lastOf (some '.') r)

section boundary

variable (named : Within isNamePart name) (spelled : ∃ text ∈ statementWords, z = text.toList)
include named

theorem member_unmarked : Within isUnmarked ('.' :: name) := by
  rw [within_cons]
  exact ⟨by decide, named.mono (isUnmarked_of (by decide))⟩

theorem member_unclosed (known : marks ⊆ replacementMarks) : Unclosed marks ('.' :: name) := by
  have outside : ∀ mark ∈ replacementMarks, Outside isUnmarked mark.toList ∧ Outside isWord mark.toList := by decide
  exact ⟨isUnmarked, fun mark member => outside mark (known member), member_unmarked named, isUnmarked_of (by decide),
    isUnmarked_of (by decide)⟩

theorem member_inked : Within isInk ('.' :: name) := by
  rw [within_cons]
  exact ⟨by decide, named.mono fun _ => isInk_of_isNamePart⟩

include spelled

theorem stage_boundary (here : Stands ('.' :: name) z (Boundary name) (StatementWord z) p s) :
    Stands ('.' :: name) z (Boundary name) (StatementWord z) p (stage 8 s) := by
  have closed : Stands ('.' :: name) z (Boundary name) (StatementWord z) p (stage 2 s) :=
    Shifted.stands_word (member_unclosed named (by decide)) (by simp) (by simp) (member_inked named) (by simp) spelled
      (fun _ (gap : Boundary name _) => gap.1) (by simp) (by simp) (stage_operators s) here
  refine Shifted.stands_word (member_unclosed named (by decide)) (fun _ => BeforeSpace.solid)
    (fun _ => AttributeNext.leads) (member_inked named) (by simp) spelled (fun _ (gap : Boundary name _) => gap.1)
    (fun _ _ _ _ => not_attributeNext_word spelled) ?_ (stage_attributes s) closed
  intro v g h b place blank nonempty gap
  have blank' := gap.1
  rw [within_append] at blank'
  exact ⟨by simp [blank, blank'.2], by simp [nonempty], .inr (guard_of_beforeSpace named place)⟩

theorem stage_unbroken (blank : Within isInlineBlank k) (guarded : "guard".toList <:+ name)
    (here : Stands ('.' :: name) z (· = k) (StatementWord z) p (stage 8 s)) :
    Stands ('.' :: name) z (· = k) (StatementWord z) p (stage 15 s) := by
  have inked := member_inked named
  have gaps : ∀ g, g = k → Within isBlank g := by
    rintro g rfl
    exact blank.mono fun _ => isBlank_of_isInlineBlank
  have unbroken : ∀ g, g = k → '\n' ∉ g := by
    rintro g rfl member
    exact absurd (blank _ member) (by decide)
  have keywords : Stands ('.' :: name) z (· = k) (StatementWord z) p (stage 9 s) :=
    Shifted.stands_word (unclosed_nil _) (by simp) (fun _ => KeywordNext.leads) inked (by simp) spelled gaps
      (fun g _ same member => absurd member (unbroken g same)) (by simp) (stage_keywords s) here
  have defaults : Stands ('.' :: name) z (· = k) (StatementWord z) p (stage 10 s) :=
    Shifted.stands_word (unclosed_nil _) (by simp) (fun _ => DefaultNext.leads) inked (by simp) spelled gaps
      (fun g _ same member => absurd member (unbroken g same)) (by simp) (stage_defaults s) keywords
  refine Shifted.stands_word (member_unclosed named (by decide)) (fun _ => BehindKeyword.solid) (by simp) inked (by simp)
    spelled gaps (by simp) ?_ (stage_punctuation s) defaults
  rintro v g h b ⟨c, last, letter⟩
  obtain ⟨n, rfl⟩ := guarded
  have ends : lastOf none (v ++ '.' :: (n ++ "guard".toList)) = some 'd' :=
    lastOf_suffix (u := "guard".toList) ⟨v ++ '.' :: n, by simp⟩ (by decide)
  rw [lastOf_none, Option.mem_def.1 last, Option.some.injEq] at ends
  subst ends
  exact absurd letter (by decide)

theorem boundary_unmarked (spacing : Within isUnmarked k) : Within isUnmarked ('.' :: name ++ (k ++ z)) := by
  obtain ⟨text, member, rfl⟩ := spelled
  have letters := (statementWords_letters text member).2.2.mono (isUnmarked_of (by decide))
  rw [within_append, within_append]
  exact ⟨member_unmarked named, spacing, letters⟩

theorem stage_corrected_boundary (spacing : Within isUnmarked k)
    (here : Stands ('.' :: name) z (· = k) (fun _ => True) p (stage 15 s)) :
    Stands ('.' :: name) z (· = k) (fun _ => True) p (stage 17 s) := by
  have unmarked := boundary_unmarked named spelled spacing
  exact stage_corrected ⟨'.', rfl, by decide⟩ (fun member => absurd (unmarked _ member) (by decide))
    (fun member => absurd (unmarked _ member) (by decide)) here

omit spelled in
theorem member_unseparated : ';' ∉ '.' :: name := fun member =>
  absurd (member_inked named _ member) (by decide)

omit named in
theorem spelled_apart : Within isInk z ∧ z ≠ [] ∧ EndsOff z ∧ ';' ∉ z := by
  obtain ⟨text, member, rfl⟩ := spelled
  obtain ⟨inked, filled, off, -, -, absent⟩ := statementWords_apart text.toList
    (List.mem_append_left _ (List.mem_map_of_mem member))
  exact ⟨inked, filled, off, absent⟩

theorem boundary_kept (tidy : Tidy s) (other : ¬ EndsClosureHead name)
    (here : Stands ('.' :: name) z BrokenGap (StatementWord z) p (stage 8 s)) :
    Stands ('.' :: name) z (· = [';']) (fun _ => True) p (stage 18 s) := by
  obtain ⟨-, -, off, absent⟩ := spelled_apart spelled
  have starts : StartsApart ('.' :: name) := ⟨'.', rfl, by decide⟩
  have corrected := stage_corrected_boundary named spelled (by decide)
    (stage_separated tidy (member_inked named) starts spelled here)
  refine stands_separatorAfterIn starts (member_unseparated named) absent off (fun r split word => other ?_) corrected
  cases r with
  | nil => exact absurd (List.cons.inj split).1 (by decide)
  | cons c r =>
      obtain ⟨rfl, rfl⟩ := List.cons.inj split
      exact ⟨r, rfl, word⟩

theorem boundary_closureHead (tidy : Tidy s) (head : EndsClosureHead name)
    (here : Stands ('.' :: name) z BrokenGap (StatementWord z) p (stage 8 s)) :
    Stands ('.' :: name) z (· = [' ']) (fun _ => True) p (stage 18 s) := by
  obtain ⟨-, -, off, absent⟩ := spelled_apart spelled
  have starts : StartsApart ('.' :: name) := ⟨'.', rfl, by decide⟩
  have corrected := stage_corrected_boundary named spelled (by decide)
    (stage_separated tidy (member_inked named) starts spelled here)
  obtain ⟨r, rfl, word⟩ := head
  exact stands_closureHead starts (member_unseparated named) absent off (r := '.' :: r) rfl word corrected

theorem boundary_guarded (blank : Within isInlineBlank k) (nonempty : k ≠ []) (guarded : "guard".toList <:+ name)
    (here : Stands ('.' :: name) z (· = k) (StatementWord z) p (stage 8 s)) :
    Stands ('.' :: name) z (· = k) (fun _ => True) p (stage 18 s) := by
  obtain ⟨-, -, off, absent⟩ := spelled_apart spelled
  have blank' : Within isBlank k := blank.mono fun _ => isBlank_of_isInlineBlank
  have kept := stage_unbroken named spelled blank guarded here
  have corrected := stage_corrected_boundary named spelled (blank'.mono (isUnmarked_of (by decide)))
    (kept.mono (fun _ => id) fun _ _ => trivial)
  refine stands_unseparated ⟨'.', rfl, by decide⟩ ?_ (off.gap blank' nonempty) corrected
  rw [List.mem_append, List.mem_append, not_or, not_or]
  exact ⟨member_unseparated named, fun member => absurd (blank' _ member) (by decide), absent⟩

end boundary

/-- Between a member access at the end of a line and a statement word at the start of the next one comes a semicolon or
inline blanks. It is the semicolon exactly behind a name that does not end with the word `in` and, if it ends with
`guard`, is still at the end of its line behind the rules for guards. -/
theorem boundary_rewrite (plain : ';' ∉ s) (named : Within isNamePart name) (blank : Within isInlineBlank g)
    (starts : StatementWord z y) (lines : reduced false s = x ++ '.' :: (name ++ (g ++ '\n' :: (z ++ y)))) :
    ∃ b, Stands ('.' :: name) z (· = b) (fun _ => True) (ink x) ((ruleSet ⟨false, true⟩).rewrite s) ∧
      (b = [';'] ∨ Within isInlineBlank b ∧ b ≠ []) ∧
      (b = [';'] ↔ ¬ EndsClosureHead name ∧ ("guard".toList <:+ name →
        Stands ('.' :: name) z BrokenGap (StatementWord z) (ink x) (stage 8 (reduced false s)))) := by
  have last : (ruleSet ⟨false, true⟩).rewrite s = stage 18 (reduced false s) := rewrite_eq false s
  have tidy : Tidy (reduced false s) := ⟨(reduced_linesStart false s).1, reduced_leads false plain⟩
  have spelled := starts.spelled
  have boundary : Boundary name (g ++ ['\n']) := by
    refine ⟨?_, by simp, .inl (by simp)⟩
    rw [within_append]
    exact ⟨blank.mono fun _ => isBlank_of_isInlineBlank, by decide⟩
  obtain ⟨x', k, y', same, ink', gap, word⟩ : Stands ('.' :: name) z (Boundary name) (StatementWord z) (ink x)
      (stage 8 (reduced false s)) :=
    stage_boundary named spelled ⟨x, g ++ ['\n'], y, by simp [lines], rfl, boundary, starts⟩
  rw [last]
  -- The line break is still there for the rules about statements, or the guards have taken it.
  by_cases broken : '\n' ∈ k
  · have place : Stands ('.' :: name) z BrokenGap (StatementWord z) (ink x) (stage 8 (reduced false s)) :=
      ⟨x', k, y', same, ink', ⟨gap.1, broken⟩, word⟩
    by_cases head : EndsClosureHead name
    · exact ⟨[' '], boundary_closureHead named spelled tidy head place, .inr ⟨by decide, by decide⟩,
        iff_of_false (by decide) fun kept => kept.1 head⟩
    · exact ⟨[';'], boundary_kept named spelled tidy head place, .inl rfl, iff_of_true rfl ⟨head, fun _ => place⟩⟩
  · have guarded : "guard".toList <:+ name := gap.2.2.resolve_left broken
    have inline : Within isInlineBlank k := by
      intro c member
      rw [isInlineBlank, Bool.and_eq_true, bne_iff_ne]
      refine ⟨gap.1 c member, ?_⟩
      rintro rfl
      exact broken member
    have place : Stands ('.' :: name) z (· = k) (StatementWord z) (ink x) (stage 8 (reduced false s)) :=
      ⟨x', k, y', same, ink', rfl, word⟩
    refine ⟨k, boundary_guarded named spelled inline gap.2.1 guarded place, .inr ⟨inline, gap.2.1⟩, iff_of_false ?_ ?_⟩
    · rintro rfl
      exact absurd (gap.1 ';' (by simp)) (by decide)
    · -- There is one such place, so one gap.
      rintro ⟨-, there⟩
      obtain ⟨inked', filled', -⟩ := spelled_apart spelled
      have spacing : ∀ g, Within isBlank g → Within isSpacing g := fun _ inside =>
        inside.mono fun _ => isSpacing_of_isBlank
      obtain ⟨_, rfl, line⟩ := place.same_gap (member_inked named) inked' (by simp) filled'
        (fun g (here : g = k) => spacing g (here ▸ gap.1)) (fun g (here : BrokenGap g) => spacing g here.1) (there guarded)
      exact broken line.2

theorem boundary_rewrite_member :
    ((';' ∉ "let a = b.c\nreturn a\n".toList) ∧ Within isNamePart "c".toList ∧ Within isInlineBlank [] ∧
        StatementWord "return".toList " a\n".toList ∧
        reduced false "let a = b.c\nreturn a\n".toList =
          "let a = b".toList ++ '.' :: ("c".toList ++ ([] ++ '\n' :: ("return".toList ++ " a\n".toList)))) ∧
      Stands ".c".toList "return".toList (· = [';']) (fun _ => True) (ink "let a = b".toList)
        ((ruleSet ⟨false, true⟩).rewrite "let a = b.c\nreturn a\n".toList) := by
  have named : Within isNamePart "c".toList := by decide
  have starts : StatementWord "return".toList " a\n".toList := .keyword (by decide) (by decide)
  have lines : reduced false "let a = b.c\nreturn a\n".toList =
      "let a = b".toList ++ '.' :: ("c".toList ++ ([] ++ '\n' :: ("return".toList ++ " a\n".toList))) := by
    decide +kernel
  refine ⟨⟨by decide, named, by decide, starts, lines⟩, ?_⟩
  obtain ⟨b, here, -, kept⟩ := boundary_rewrite (by decide) named (by decide) starts lines
  have separator : b = [';'] := by
    refine kept.2 ⟨?_, fun guarded => absurd guarded (by decide)⟩
    rintro ⟨r, same, -⟩
    have long := congrArg List.length same
    simp at long
  subst separator
  exact here

/-- A member of the name of a keyword is taken for the head of a closure. -/
theorem boundary_lost :
    (';' ∉ "let a = x.in\nreturn a\n".toList) ∧
      reduced false "let a = x.in\nreturn a\n".toList = "let a = x.in\nreturn a\n".toList ∧
      (ruleSet ⟨false, true⟩).rewrite "let a = x.in\nreturn a\n".toList = "let a = x.in return a\n".toList := by
  decide +kernel

end SourceBundle.Swift
