import SourceBundle.Proofs.Production.Removals
import SourceBundle.Proofs.Production.Spacing

/-!
The passes after the last rule have nothing left to do under the production profile: no line starts
with a blank or with a comment after the removals, and the replacements keep it so.
-/

namespace SourceBundle.Swift

open Pattern Text

variable {x g h y p q s : List Char} {o : Option Char}

def production (embedded : Bool) : RuleSet := ruleSet ⟨embedded, true⟩

def reduced (embedded : Bool) (s : List Char) : List Char :=
  RuleSet.applyAll (production embedded).removals ((production embedded).join s)

theorem reduced_last (embedded : Bool) (s : List Char) :
    ∃ z, reduced embedded s = RuleSet.applyAll productionRemovals z := by
  have removals : (production embedded).removals =
      (if embedded then embeddedRemovals else []) ++ productionRemovals := rfl
  exact ⟨_, by rw [reduced, removals, RuleSet.applyAll, List.foldl_append]; rfl⟩

/-- Two slashes in front of an equals sign. -/
def OnlyDivides (s : List Char) : Prop := ∀ z, s = '/' :: '/' :: z → ∃ w, z = '=' :: w

/-- Two slashes at the start of a line are those of an operator. -/
abbrev DividesLine : Option Char → List Char → Prop := Throughout OpensLine OnlyDivides

theorem replacementMarks_ends :
    ∀ mark ∈ replacementMarks, ∃ c ∈ mark.toList.getLast?, c ≠ '\n' ∧ c ≠ '/' := by
  decide

theorem replacementMarks_slash :
    ∀ mark ∈ replacementMarks, mark.toList.head? = some '/' → mark = "/=" := by
  decide

theorem lastOf_suffix {u w : List Char} (suffix : u <:+ w) {c : Char} (last : c ∈ u.getLast?) :
    lastOf o w = some c := by
  obtain ⟨z, rfl⟩ := suffix
  obtain ⟨u, rfl⟩ := List.getLast?_eq_some_iff.1 last
  simp

theorem Change.opensLine (change : Change replacementMarks isSolid x g h y) (split : h = p ++ q)
    (opens : OpensLine (lastOf o (x ++ p))) :
    p = [] ∧ (Within isBlank g ∧ Stops isBlank y ∧ h = [] ∨ h = [';']) := by
  cases change with
  | close blank nonempty beside stops =>
      obtain ⟨rfl, rfl⟩ := List.append_eq_nil_iff.1 split.symm
      exact ⟨rfl, .inl ⟨blank, stops, rfl⟩⟩
  | @space x _ _ _ c blank nonempty inline kept lighter ended =>
      exfalso
      rcases List.eq_nil_or_concat p with rfl | ⟨p, d, rfl⟩
      · simp only [List.append_nil, lastOf_append, lastOf_cons, lastOf_nil, opensLine_some] at opens
        subst opens
        exact absurd ended (by decide)
      · simp only [List.concat_eq_append, lastOf_append, lastOf_cons, lastOf_nil, opensLine_some] at opens
        subst opens split
        exact absurd (inline '\n' (by simp)) (by decide)
  | separate blank nonempty starts =>
      cases p with
      | nil => exact ⟨rfl, .inr rfl⟩
      | cons d p => simp_all
  | correct member after =>
      obtain ⟨rfl, rfl⟩ := List.append_eq_nil_iff.1 split.symm
      obtain ⟨c, last, other, -⟩ := replacementMarks_ends _ member
      rw [List.append_nil, lastOf_suffix after last, opensLine_some] at opens
      exact absurd opens other
  | closure =>
      cases p with
      | nil => simp at opens
      | cons d p => simp_all

theorem Change.flushLeft (change : Change replacementMarks isSolid x g h y)
    (every : FlushLeft o (x ++ g ++ y)) : FlushLeft o (x ++ h ++ y) := by
  refine every.between ?_ ?_
  · intro p q _ filled _ stops
    cases q with
    | nil => exact absurd rfl filled
    | cons c q => simpa using stops
  · intro p q split opens
    obtain ⟨rfl, ⟨-, stops, rfl⟩ | rfl⟩ := Change.opensLine change split opens
    · rw [List.nil_append] at split
      simpa [← split] using stops
    · rw [List.nil_append] at split
      rw [← split, List.cons_append, stops_cons]
      decide

theorem Change.dividesLine (change : Change replacementMarks isSolid x g h y)
    (flush : FlushLeft o (x ++ g ++ y)) (every : DividesLine o (x ++ g ++ y)) :
    DividesLine o (x ++ h ++ y) := by
  refine every.between ?_ ?_
  · intro p q split filled _ divides z start
    -- Of the two slashes one or both are in front of the change.
    match q, filled with
    | [c], _ =>
        by_cases empty : h = []
        · subst empty
          simp only [List.singleton_append, List.append_nil, List.cons.injEq] at start
          obtain ⟨rfl, rfl⟩ := start
          obtain ⟨mark, member, before | after⟩ := change.beside
          · obtain ⟨c, last, -, other⟩ := replacementMarks_ends _ member
            rw [split] at before
            have last := lastOf_suffix (o := none) before last
            simp only [lastOf_append, lastOf_cons, lastOf_nil, Option.some.injEq] at last
            exact absurd last.symm other
          · obtain ⟨w, after⟩ := after
            have head : mark.toList.head? = some '/' := by
              obtain ⟨c, last, -⟩ := replacementMarks_ends _ member
              cases spelled : mark.toList with
              | nil => simp [spelled] at last
              | cons d m =>
                  rw [spelled] at after
                  simp [(List.cons.inj after).1]
            rw [replacementMarks_slash mark member head] at after
            have rest : '=' :: w = z := by simpa using after
            exact ⟨w, rest.symm⟩
        · have spacing := change.spacing'.head (w := y) empty (by simpa using (List.cons.inj start).2)
          exact absurd spacing (by decide)
    | c :: d :: q, _ =>
        obtain ⟨rfl, rfl, rfl⟩ : c = '/' ∧ d = '/' ∧ q ++ h ++ y = z := by simpa using start
        obtain ⟨w, start⟩ := divides (q ++ g ++ y) (by simp)
        cases q with
        | nil => exact absurd (change.spacing.head change.nonempty start) (by decide)
        | cons e q =>
            obtain ⟨rfl, -⟩ := List.cons.inj start
            exact ⟨q ++ h ++ y, rfl⟩
  · intro p q split opens z start
    obtain ⟨rfl, ⟨blank, stops, rfl⟩ | rfl⟩ := Change.opensLine change split opens
    · rw [List.append_nil] at opens
      have here := flush x (g ++ y) (by simp) opens
      obtain ⟨c, g, rfl⟩ := List.exists_cons_of_ne_nil change.nonempty
      rw [within_cons] at blank
      simp [blank.1] at here
    · rw [List.nil_append] at split
      simp [← split] at start

theorem reads_emptyCommentLine {before : Option Char} {u after v : List Char} :
    emptyCommentLine.Reads before u after v ↔
      ∃ g h e, u = g ++ '/' :: '/' :: (h ++ e) ∧ v = u ∧ OpensLine before ∧ Within isInlineBlank g ∧
        Within isInlineBlank h ∧ (e = ['\n'] ∨ e = [] ∧ after = []) := by
  simp only [emptyCommentLine, reads_append, reads_gap, reads_literal, lineEnd, newline, Reads]
  constructor
  · rintro ⟨_, e, _, _, rfl, rfl, ⟨_, h, _, _, rfl, rfl, ⟨_, _, _, _, rfl, rfl, ⟨_, g, _, _, rfl, rfl,
      ⟨rfl, rfl, opens⟩, blank, -, rfl⟩, rfl, rfl⟩, blank', -, rfl⟩, ends⟩
    rcases ends with ⟨rfl, rfl⟩ | ⟨rfl, rfl, rfl⟩
    · exact ⟨_, _, ['\n'], by simp, by simp, opens, blank, blank', .inl rfl⟩
    · exact ⟨_, _, [], by simp, by simp, opens, blank, blank', .inr ⟨rfl, rfl⟩⟩
  · rintro ⟨g, h, e, rfl, rfl, opens, blank, blank', ends⟩
    have stops : Stops isInlineBlank (e ++ after) := by
      rcases ends with rfl | ⟨rfl, rfl⟩
      · exact (stops_cons _ _ _).2 (by decide)
      · exact stops_nil _
    refine ⟨g ++ ['/', '/'] ++ h, e, g ++ ['/', '/'] ++ h, e, by simp, by simp,
      ⟨g ++ ['/', '/'], h, g ++ ['/', '/'], h, rfl, rfl, ⟨g, ['/', '/'], g, ['/', '/'], rfl, rfl,
        ⟨[], g, [], g, rfl, rfl, ⟨rfl, rfl, opens⟩, blank, (stops_cons _ _ _).2 (by decide), rfl⟩,
        rfl, rfl⟩, blank', stops, rfl⟩, ?_⟩
    rcases ends with rfl | ⟨rfl, rfl⟩
    · exact .inl ⟨rfl, rfl⟩
    · exact .inr ⟨rfl, rfl, rfl⟩

theorem reads_newlineRun {before : Option Char} {u after v : List Char} :
    newlineRun.Reads before u after v ↔
      ∃ g, u = '\n' :: g ∧ v = [';'] ∧ Within isBlank g ∧ g ≠ [] ∧ Stops isBlank after := by
  simp only [newlineRun, newline, reads_append, reads_someBlanks, Reads]
  constructor
  · rintro ⟨_, _, _, _, rfl, rfl, ⟨rfl, _, _, g, _, _, rfl, rfl, ⟨rfl, rfl⟩, blank, nonempty, stops,
      rfl⟩, rfl, rfl⟩
    exact ⟨_, by simp, rfl, blank, nonempty, by simpa using stops⟩
  · rintro ⟨g, rfl, rfl, blank, nonempty, stops⟩
    exact ⟨'\n' :: g, [], [], [';'], by simp, rfl, ⟨rfl, _, ['\n'], g, ['\n'], g, rfl, rfl,
      ⟨rfl, rfl⟩, blank, nonempty, by simpa using stops, rfl⟩, rfl, rfl⟩

theorem emptyComment_eq_self (flush : FlushLeft none s) (divides : DividesLine none s) :
    (drop emptyCommentLine).rewrite s = s := by
  refine rewrite_eq_self ?_ ?_
  · rintro before u after v ⟨-, w, reads⟩
    obtain ⟨g, h, e, rfl, -⟩ := reads_emptyCommentLine.1 reads
    simp
  · rintro x u after v split ⟨-, w, reads⟩
    obtain ⟨g, h, e, rfl, -, opens, blank, blank', ends⟩ := reads_emptyCommentLine.1 reads
    exfalso
    cases g with
    | nil =>
        obtain ⟨w, start⟩ := divides x ('/' :: '/' :: (h ++ e ++ after)) (by simp [split]) opens _ rfl
        cases h with
        | nil => rcases ends with rfl | ⟨rfl, rfl⟩ <;> simp at start
        | cons c h =>
            have inline := blank'.head (by simp) (by simpa using start)
            exact absurd inline (by decide)
    | cons c g =>
        have stops := flush x (c :: (g ++ '/' :: '/' :: (h ++ e) ++ after)) (by simp [split]) opens
        rw [within_cons] at blank
        simp [isBlank_of_isInlineBlank blank.1] at stops

theorem newlineRun_eq_self (flush : FlushLeft none s) : newlineRun.rewrite s = s := by
  refine rewrite_eq_self ?_ ?_
  · intro before u after v reads
    obtain ⟨g, rfl, -⟩ := reads_newlineRun.1 reads
    simp
  · intro x u after v split reads
    obtain ⟨g, rfl, rfl, blank, nonempty, -⟩ := reads_newlineRun.1 reads
    obtain ⟨c, g, rfl⟩ := List.exists_cons_of_ne_nil nonempty
    have stops := flush (x ++ ['\n']) (c :: g ++ after) (by simp [split]) (by simp)
    rw [within_cons] at blank
    simp [blank.1] at stops

theorem cleanUp_eq_self {embedded : Bool} (flush : FlushLeft none s) (divides : DividesLine none s) :
    (production embedded).cleanUp s = s := by
  calc (production embedded).cleanUp s
      = newlineRun.rewrite ((drop emptyCommentLine).rewrite s) := rfl
    _ = newlineRun.rewrite s := by rw [emptyComment_eq_self flush divides]
    _ = s := newlineRun_eq_self flush

abbrev LinesStart (s : List Char) : Prop := FlushLeft none s ∧ DividesLine none s

theorem reduced_linesStart (embedded : Bool) (s : List Char) : LinesStart (reduced embedded s) := by
  obtain ⟨z, last⟩ := reduced_last embedded s
  have flush : FlushLeft none (reduced embedded s) := last ▸ productionRemovals_flushLeft z
  have comments : NoCommentStart none (reduced embedded s) :=
    last ▸ productionRemovals_noCommentStart z
  refine ⟨flush, fun p q split opens z here => ?_⟩
  exact absurd ⟨z, here⟩ (comments p q split opens)

theorem linesStart_respaced {w : List Char} (respaced : Respaced replacementMarks isSolid s w)
    (start : LinesStart s) : LinesStart w :=
  respaced.keeps (P := LinesStart)
    (fun _ _ _ _ change both =>
      ⟨Change.flushLeft change both.1, Change.dividesLine change both.1 both.2⟩) start

/-- Under the production profile a rewritten text is what the replacements make of the reduced one. -/
theorem rewrite_eq (embedded : Bool) (s : List Char) :
    (production embedded).rewrite s =
      RuleSet.applyAll productionReplacements (reduced embedded s) := by
  have after := linesStart_respaced (replacements_respaced (reduced embedded s)) (reduced_linesStart embedded s)
  exact cleanUp_eq_self after.1 after.2

end SourceBundle.Swift
