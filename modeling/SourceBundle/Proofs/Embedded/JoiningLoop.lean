import SourceBundle.Proofs.ByteSizes
import SourceBundle.Proofs.Embedded.OnePass

/-!
The structural pass as a loop over one text that is searched and rewritten in place. A round searches from a byte
offset on, puts the declaration that it finds on one line and goes on behind that. Between two rounds the text before
the offset is written and the text behind it is as it was, so that every offset is the size of a prefix.
-/

namespace SourceBundle

open Text

namespace Text

variable {n : Nat} {s w x y z : List Char}

def splitAtByte : List Char → Nat → Option (List Char × List Char)
  | s, 0 => some ([], s)
  | [], _ + 1 => none
  | c :: s, n + 1 =>
      if c.utf8Size ≤ n + 1 then (splitAtByte s (n + 1 - c.utf8Size)).map fun (x, y) => (c :: x, y) else none

def replaceRange (first last : Nat) (w s : List Char) : Option (List Char) :=
  match splitAtByte s first, splitAtByte s last with
  | some (x, _), some (_, y) => if first ≤ last then some (x ++ w ++ y) else none
  | _, _ => none

theorem splitAtByte_eq_some_iff : splitAtByte s n = some (x, y) ↔ s = x ++ y ∧ n = byteSize x := by
  induction s, n using splitAtByte.induct generalizing x with
  | case1 s =>
      constructor
      · intro split
        obtain ⟨rfl, rfl⟩ := Prod.mk.inj (Option.some.inj ((splitAtByte.eq_1 s).symm.trans split))
        exact ⟨rfl, rfl⟩
      · rintro ⟨rfl, size⟩
        cases x with
        | nil => exact splitAtByte.eq_1 _
        | cons c x =>
            have := c.utf8Size_pos
            rw [byteSize_cons] at size
            omega
  | case2 n =>
      simp only [splitAtByte, reduceCtorEq, false_iff, not_and, List.nil_eq, List.append_eq_nil_iff]
      rintro ⟨rfl, -⟩ size
      exact absurd size (by simp)
  | case3 c s n fits ih =>
      simp only [splitAtByte, if_pos fits, Option.map_eq_some_iff, Prod.exists, Prod.mk.injEq]
      constructor
      · rintro ⟨x, _, split, rfl, rfl⟩
        obtain ⟨rfl, size⟩ := ih.1 split
        exact ⟨rfl, by rw [byteSize_cons]; omega⟩
      · rintro ⟨split, size⟩
        cases x with
        | nil => simp at size
        | cons d x =>
            obtain ⟨rfl, rfl⟩ := List.cons.inj split
            refine ⟨x, y, ih.2 ⟨rfl, ?_⟩, rfl, rfl⟩
            rw [byteSize_cons] at size
            omega
  | case4 c s n long =>
      simp only [splitAtByte, if_neg long, reduceCtorEq, false_iff, not_and]
      intro split size
      cases x with
      | nil => simp at size
      | cons d x =>
          obtain ⟨rfl, -⟩ := List.cons.inj split
          rw [byteSize_cons] at size
          omega

theorem splitAtByte_append (x y : List Char) : splitAtByte (x ++ y) (byteSize x) = some (x, y) :=
  splitAtByte_eq_some_iff.2 ⟨rfl, rfl⟩

theorem replaceRange_append (x z y w : List Char) :
    replaceRange (byteSize x) (byteSize x + byteSize z) w (x ++ (z ++ y)) = some (x ++ w ++ y) := by
  have last : splitAtByte (x ++ (z ++ y)) (byteSize x + byteSize z) = some (x ++ z, y) := by
    rw [← byteSize_append, ← List.append_assoc, splitAtByte_append]
  rw [replaceRange, splitAtByte_append, last]
  simp

end Text

namespace Pattern

def findFrom (p : Pattern) (before : Option Char) (s : List Char) : Option (List Char × List Char) :=
  match p.match? ⟨before, s, []⟩ with
  | some d => some ([], s.take (s.length - d.rest.length))
  | none =>
    match s with
    | [] => none
    | c :: s => (findFrom p (some c) s).map fun (skipped, found) => (c :: skipped, found)

end Pattern

namespace Swift

open Pattern

/-- The text as rewritten so far, and the byte offset from which the next round searches. -/
structure Search where
  code : List Char
  start : Nat

inductive Round where
  | fault
  | finished
  | next (search : Search)

def Search.round (search : Search) : Round :=
  match splitAtByte search.code search.start with
  | none => .fault
  | some (written, rest) =>
    match findFrom caseDeclaration (lastOf none written) rest with
    | none => .finished
    | some (skipped, found) =>
      let first := search.start + byteSize skipped
      let joined := RuleSet.oneLine ';' found
      match replaceRange first (first + byteSize found) joined search.code with
      | none => .fault
      | some code => .next ⟨code, first + byteSize joined⟩

/-- The loop ends without a fault, after so many replacements and with the given text. -/
inductive Search.Ends : Nat → Search → List Char → Prop
  | finished {search : Search} : search.round = .finished → Ends 0 search search.code
  | next {n : Nat} {search later : Search} {out : List Char} :
      search.round = .next later → Ends n later out → Ends (n + 1) search out

variable {before : Option Char} {s out written rest : List Char}

theorem joined_find (joined : RuleSet.Joined ';' caseDeclaration before s out) :
    findFrom caseDeclaration before s = none ∧ out = s ∨
      ∃ skipped d after later, findFrom caseDeclaration before s = some (skipped, d) ∧ s = skipped ++ (d ++ after) ∧
        SpansLines d ∧ out = skipped ++ (RuleSet.oneLine ';' d ++ later) ∧
        RuleSet.Joined ';' caseDeclaration (lastOf before (skipped ++ RuleSet.oneLine ';' d)) after later := by
  induction joined with
  | @done before =>
      have missing : caseDeclaration.match? ⟨before, [], []⟩ = none := by
        rw [match_none_iff]
        rintro u after v split reads
        obtain rfl : u = [] := by simp_all
        exact caseDeclaration_advances _ _ _ _ reads rfl
      exact .inl ⟨by rw [findFrom, missing], rfl⟩
  | @join before u after v out reads later _ =>
      obtain ⟨rfl, -, spans⟩ := reads_caseDeclaration_iff.1 reads
      obtain ⟨d, found⟩ : ∃ d, caseDeclaration.match? ⟨before, v ++ after, []⟩ = some d := by
        rw [← Option.isSome_iff_exists, Option.isSome_iff_ne_none]
        intro missing
        exact match_none_iff.1 missing v after v rfl reads
      obtain ⟨u, rest, w, split, reads', rfl⟩ := match_sound found
      have split : v ++ after = u ++ rest := split
      obtain rfl : v = u := caseDeclaration_unique reads reads' split
      obtain rfl : after = rest := List.append_cancel_left split
      refine .inr ⟨[], v, after, out, ?_, rfl, spans, rfl, later⟩
      rw [findFrom.eq_def, found]
      simp [moved]
  | @skip before c s out fails _ ih =>
      have missing : caseDeclaration.match? ⟨before, c :: s, []⟩ = none := match_none_iff.2 fails
      rcases ih with ⟨none, rfl⟩ | ⟨skipped, d, after, later, found, rfl, spans, rfl, joined⟩
      · exact .inl ⟨by simp [findFrom, missing, none], rfl⟩
      · refine .inr ⟨c :: skipped, d, after, later, ?_, rfl, spans, rfl, joined⟩
        simp [findFrom, missing, found]

theorem round_joined (joined : RuleSet.Joined ';' caseDeclaration (lastOf none written) rest out) :
    Search.round ⟨written ++ rest, byteSize written⟩ = .finished ∧ out = rest ∨
      ∃ skipped d after later, rest = skipped ++ (d ++ after) ∧ SpansLines d ∧
        out = skipped ++ (RuleSet.oneLine ';' d ++ later) ∧
        RuleSet.Joined ';' caseDeclaration (lastOf none (written ++ skipped ++ RuleSet.oneLine ';' d)) after later ∧
        Search.round ⟨written ++ rest, byteSize written⟩ =
          .next ⟨written ++ skipped ++ RuleSet.oneLine ';' d ++ after,
            byteSize (written ++ skipped ++ RuleSet.oneLine ';' d)⟩ := by
  rcases joined_find joined with ⟨missing, rfl⟩ | ⟨skipped, d, after, later, found, rfl, spans, rfl, onward⟩
  · exact .inl ⟨by simp [Search.round, splitAtByte_append, missing], rfl⟩
  · have range : replaceRange (byteSize written + byteSize skipped)
        (byteSize written + byteSize skipped + byteSize d) (RuleSet.oneLine ';' d)
        (written ++ (skipped ++ (d ++ after))) = some (written ++ skipped ++ RuleSet.oneLine ';' d ++ after) := by
      rw [← byteSize_append, ← List.append_assoc, replaceRange_append]
    have size : byteSize (written ++ skipped ++ RuleSet.oneLine ';' d) =
        byteSize written + byteSize skipped + byteSize (RuleSet.oneLine ';' d) := by simp [Nat.add_assoc]
    refine .inr ⟨skipped, d, after, later, rfl, spans, rfl, by simpa using onward, ?_⟩
    simp only [Search.round, splitAtByte_append, found, range, size]

/-- The loop ends with the text of the pass, after at most as many replacements as there are newlines. -/
theorem ends_joined (joined : RuleSet.Joined ';' caseDeclaration (lastOf none written) rest out) :
    ∃ n ≤ rest.count '\n', Search.Ends n ⟨written ++ rest, byteSize written⟩ (written ++ out) := by
  -- On the length of what is left: a round passes over a declaration, and there is a newline in it.
  induction size : rest.length using Nat.strong_induction_on generalizing written rest out with
  | _ size ih =>
      rcases round_joined joined with ⟨finished, rfl⟩ | ⟨skipped, d, after, later, rfl, spans, rfl, joined, next⟩
      · exact ⟨0, Nat.zero_le _, .finished finished⟩
      · obtain ⟨h, b, rfl, -, -, broken⟩ := spans
        obtain ⟨n, few, ends⟩ := ih after.length (by simp at size; omega) joined rfl
        refine ⟨n + 1, ?_, .next next ?_⟩
        · have := List.count_pos_iff.2 broken
          simp only [List.count_append, List.count_cons]
          omega
        · simpa using ends

/-- The loop and one pass from left to right come to the same. Whatever the text, the loop ends without a fault, with
every declaration of the text it starts from on one line behind a semicolon and the rest as it was, and no declaration
is left. -/
theorem join_onePass (production : Bool) (s : List Char) :
    (∃ n ≤ s.count '\n', Search.Ends n ⟨s, 0⟩ ((ruleSet ⟨true, production⟩).join s)) ∧
      (∃ stretches : List Stretch, s = stretches.flatMap Stretch.source ∧
        (ruleSet ⟨true, production⟩).join s = stretches.flatMap Stretch.joined ∧ Finds none s stretches) ∧
      ∀ x d y, (ruleSet ⟨true, production⟩).join s = x ++ (d ++ y) → ¬ Declares (lastOf none x) d := by
  have joined : RuleSet.Joined ';' caseDeclaration none s ((ruleSet ⟨true, production⟩).join s) :=
    RuleSet.joinDeclarations_joined ';' caseDeclaration_advances s
  have ends : ∃ n ≤ s.count '\n', Search.Ends n ⟨[] ++ s, byteSize []⟩ ([] ++ (ruleSet ⟨true, production⟩).join s) :=
    ends_joined joined
  exact ⟨ends, joined_stretches joined, fun _ _ _ same => joined_undeclared joined same⟩

end Swift

end SourceBundle
