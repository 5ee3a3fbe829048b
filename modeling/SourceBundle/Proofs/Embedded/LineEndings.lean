import SourceBundle.Proofs.Embedded.OnePass

/-!
Line endings. A carriage return in front of a newline is a blank at the end of its line. The passes that run without
the production profile look at a line apart from such a blank, so it makes no difference to what they rewrite.
-/

namespace SourceBundle

open Text

namespace Text

variable {keep : List Char → Bool} {c : Char} {s w x y : List Char}

def crlf (s : List Char) : List Char := s.flatMap fun c => if c = '\n' then ['\r', '\n'] else [c]

@[simp] theorem crlf_nil : crlf [] = [] := rfl

@[simp] theorem crlf_append (s w : List Char) : crlf (s ++ w) = crlf s ++ crlf w := List.flatMap_append

@[simp] theorem crlf_newline (s : List Char) : crlf ('\n' :: s) = '\r' :: '\n' :: crlf s := rfl

theorem crlf_cons (inline : c ≠ '\n') (s : List Char) : crlf (c :: s) = c :: crlf s := by
  simp [crlf, inline]

theorem crlf_inline (inline : Within isInline w) : crlf w = w := by
  induction w with
  | nil => rfl
  | cons c w ih =>
      rw [within_cons] at inline
      rw [crlf_cons (by simpa [isInline] using inline.1), ih inline.2]

theorem crlf_line (inline : Within isInline w) (s : List Char) :
    crlf (w ++ '\n' :: s) = (w ++ ['\r']) ++ '\n' :: crlf s := by
  rw [crlf_append, crlf_inline inline, crlf_newline]
  simp

theorem inline_return (inline : Within isInline w) : Within isInline (w ++ ['\r']) := by
  rw [within_append]
  exact ⟨inline, by decide⟩

theorem mem_crlf : c ∈ crlf s ↔ c ∈ s ∨ c = '\r' ∧ '\n' ∈ s := by
  induction s with
  | nil => simp
  | cons d s ih =>
      by_cases newline : d = '\n'
      · subst newline
        simp only [crlf_newline, List.mem_cons, ih]
        tauto
      · simp only [crlf_cons newline, List.mem_cons, ih, Ne.symm newline, false_or, or_assoc]

theorem crlf_split (inline : c ≠ '\n') (other : c ≠ '\r') (same : crlf s = x ++ c :: y) :
    ∃ z w, s = z ++ c :: w ∧ crlf z = x ∧ crlf w = y := by
  induction s generalizing x with
  | nil => simp at same
  | cons d s ih =>
      by_cases newline : d = '\n'
      · subst newline
        rw [crlf_newline] at same
        rcases x with _ | ⟨e, _ | ⟨f, x⟩⟩
        · exact absurd (List.cons.inj same).1 (Ne.symm other)
        · exact absurd (List.cons.inj (List.cons.inj same).2).1 (Ne.symm inline)
        · simp only [List.cons_append, List.cons.injEq] at same
          obtain ⟨rfl, rfl, rest⟩ := same
          obtain ⟨z, w, rfl, rfl, rfl⟩ := ih rest
          exact ⟨'\n' :: z, w, rfl, rfl, rfl⟩
      · rw [crlf_cons newline] at same
        cases x with
        | nil =>
            obtain ⟨rfl, rfl⟩ := List.cons.inj same
            exact ⟨[], s, rfl, rfl, rfl⟩
        | cons e x =>
            simp only [List.cons_append, List.cons.injEq] at same
            obtain ⟨rfl, rest⟩ := same
            obtain ⟨z, w, rfl, rfl, rfl⟩ := ih rest
            exact ⟨d :: z, w, rfl, crlf_cons newline z, rfl⟩

theorem keepLines_crlf (same : ∀ w, keep (w ++ ['\r']) = keep w) (s : List Char) :
    keepLines keep (crlf s) = crlf (keepLines keep s) := by
  induction s using line_cases with
  | empty => rfl
  | last w inline filled =>
      rw [crlf_inline inline, keepLines_last inline filled]
      cases keep w with
      | false => rfl
      | true => exact (crlf_inline inline).symm
  | line w s inline ih =>
      rw [crlf_line inline, keepLines_line (inline_return inline), keepLines_line inline, same, ih, crlf_append]
      cases keep w with
      | false => rfl
      | true => simp [crlf_inline inline]

theorem trim_append_blank (blank : isBlank c = true) (w : List Char) : trim (w ++ [c]) = trim w := by
  rw [trim, trim, trimStart, List.dropWhile_append]
  split
  · rename_i empty
    rw [← trimStart, List.isEmpty_iff] at empty
    rw [empty]
    simp [blank]
  · rw [← trimStart, trimEnd, List.reverse_append, List.reverse_singleton, List.singleton_append,
      List.dropWhile_cons_of_pos blank, ← trimEnd]

theorem onOneLine_crlf (s : List Char) : onOneLine (crlf s) = onOneLine s := by
  induction s using line_cases with
  | empty => rfl
  | last w inline _ => rw [crlf_inline inline]
  | line w s inline ih =>
      rw [crlf_line inline, onOneLine_newline, onOneLine_newline, onOneLine_last (inline_return inline),
        onOneLine_last inline, ih, trim_append_blank (by decide)]

end Text

namespace Swift

open Pattern

variable {before : Option Char} {c d : Char} {s u w y out : List Char}

theorem split_concat {h x : List Char} (same : w ++ [c] = x ++ h) (other : ∀ d ∈ x.getLast?, d ≠ c) :
    ∃ z, h = z ++ [c] ∧ w = x ++ z := by
  rcases List.eq_nil_or_concat h with rfl | ⟨z, d, rfl⟩
  · rw [List.append_nil] at same
    exact absurd rfl (other c (by simp [← same]))
  · rw [List.concat_eq_append, ← List.append_assoc] at same
    obtain ⟨rfl, last⟩ := List.append_inj' same rfl
    obtain rfl : c = d := by simpa using last
    exact ⟨z, List.concat_eq_append, rfl⟩

section blank

variable (blank : isInlineBlank c = true)
include blank

theorem ne_of_blank (solid : isInlineBlank d = false) : d ≠ c := by
  rintro rfl
  rw [blank] at solid
  cases solid

theorem holdsEmptyComment_blank : HoldsEmptyComment (w ++ [c]) ↔ HoldsEmptyComment w := by
  constructor
  · rintro ⟨g, h, split, front, back⟩
    obtain ⟨z, rfl, rfl⟩ := split_concat split fun d last => by
      have slash : '/' = d := by simpa using last
      exact ne_of_blank blank (slash ▸ by decide)
    rw [within_append] at back
    exact ⟨g, z, rfl, front, back.1⟩
  · rintro ⟨g, h, rfl, front, back⟩
    refine ⟨g, h ++ [c], by simp, front, ?_⟩
    rw [within_append, within_cons]
    exact ⟨back, blank, within_nil _⟩

theorem importEnd_blank : ImportEnd (w ++ [c]) ↔ ImportEnd w := by
  constructor
  · intro rest
    obtain ⟨g, m, h, k, split, front, mark, back, rfl | ⟨r, rfl, inline⟩⟩ := rest.spaced
    · rw [List.append_nil] at split
      rcases mark with ⟨rfl, rfl⟩ | rfl
      · rw [List.append_nil, List.append_nil] at split
        rw [← split, within_append] at front
        exact ⟨w, [], [], [], by simp, front.1, .inl rfl, within_nil _, .inl rfl⟩
      · obtain ⟨z, rfl, rfl⟩ := split_concat split fun d last => by
          have semicolon : ';' = d := by simpa using last
          exact ne_of_blank blank (semicolon ▸ by decide)
        rw [within_append] at back
        exact ⟨g, [';'], z, [], by simp, front, .inr rfl, back.1, .inl rfl⟩
    · have split : w ++ [c] = (g ++ m ++ h ++ "//".toList) ++ r := by simpa using split
      obtain ⟨z, rfl, rfl⟩ := split_concat split fun d last => by
        have slash : '/' = d := by simpa using last
        exact ne_of_blank blank (slash ▸ by decide)
      rw [within_append] at inline
      exact ⟨g, m, h, '/' :: '/' :: z, by simp, front, mark.imp_left And.left, back, .inr ⟨z, rfl, inline.1⟩⟩
  · rintro ⟨g, m, h, k, rfl, front, mark, back, rfl | ⟨r, rfl, inline⟩⟩
    · refine ⟨g, m, h ++ [c], [], by simp, front, mark, ?_, .inl rfl⟩
      rw [within_append, within_cons]
      exact ⟨back, blank, within_nil _⟩
    · refine ⟨g, m, h, '/' :: '/' :: (r ++ [c]), by simp, front, mark, back, .inr ⟨r ++ [c], rfl, ?_⟩⟩
      rw [within_append, within_cons]
      exact ⟨inline, isInline_of_isInlineBlank blank, within_nil _⟩

theorem declaresImport_blank : DeclaresImport (w ++ [c]) ↔ DeclaresImport w := by
  constructor
  · rintro ⟨g, q, h, k, p, e, split, front, qualifiers, back, filled, kind, path, rest⟩
    obtain ⟨n, r, spelled⟩ : ∃ n r, p = r ++ [n] := by
      obtain ⟨e, u, rfl, -⟩ := path
      obtain ⟨r, n, ends⟩ := (List.eq_nil_or_concat (e :: u)).resolve_left (by simp)
      exact ⟨n, r, by rw [ends, List.concat_eq_append]⟩
    obtain ⟨z, rfl, rfl⟩ := split_concat split fun d last => by
      rw [spelled, ← List.append_assoc, List.getLast?_concat, Option.mem_some_iff] at last
      exact ne_of_blank blank (isInlineBlank_of_isModulePart (path.within d (by simp [spelled, last])))
    exact ⟨g, q, h, k, p, z, rfl, front, qualifiers, back, filled, kind, path, (importEnd_blank blank).1 rest⟩
  · rintro ⟨g, q, h, k, p, e, rfl, front, qualifiers, back, filled, kind, path, rest⟩
    exact ⟨g, q, h, k, p, e ++ [c], by simp, front, qualifiers, back, filled, kind, path,
      (importEnd_blank blank).2 rest⟩

end blank

/-- A rule that takes whole lines of a kind takes the same lines with carriage returns in the text. -/
theorem rewrite_crlf_of_readsLines {p : Pattern} {kind : List Char → Prop} [DecidablePred kind]
    (reads : p.ReadsLines kind) (same : ∀ w, kind (w ++ ['\r']) ↔ kind w) (s : List Char) :
    (drop p).rewrite (crlf s) = crlf ((drop p).rewrite s) := by
  rw [reads.rewrite, reads.rewrite]
  exact keepLines_crlf (fun w => by simp only [same]) s

theorem SpansLines.crlf (spans : SpansLines s) : SpansLines (Text.crlf s) := by
  obtain ⟨h, b, rfl, heading, inside, broken⟩ := spans
  have inline : Within isInline h := heading.inside.1.mono fun c here => by
    rw [isHeading, Bool.and_eq_true] at here
    exact here.2
  refine ⟨h, Text.crlf b, ?_, heading, fun c member => ?_, mem_crlf.2 (.inl broken)⟩
  · rw [crlf_append, crlf_inline inline, crlf_cons (by decide), crlf_append]
    rfl
  · rcases mem_crlf.1 member with member | ⟨rfl, -⟩
    · exact inside c member
    · decide

theorem SpansLines.of_crlf {z : List Char} (spans : SpansLines z) (same : Text.crlf s = z ++ y) :
    ∃ w x, s = w ++ x ∧ SpansLines w := by
  obtain ⟨h, b, rfl, heading, inside, broken⟩ := spans
  rw [List.append_assoc, List.cons_append, List.append_assoc] at same
  obtain ⟨h, w, rfl, rfl, behind⟩ := crlf_split (by decide) (by decide) same
  obtain ⟨b, x, rfl, rfl, -⟩ := crlf_split (by decide) (by decide) behind
  have inline : Within isInline h := by
    intro c member
    have here := heading.inside.1 c (mem_crlf.2 (.inl member))
    rw [isHeading, Bool.and_eq_true] at here
    exact here.2
  rw [crlf_inline inline] at heading
  have broken : '\n' ∈ b := (mem_crlf.1 broken).resolve_right fun other => absurd other.1 (by decide)
  exact ⟨h ++ '(' :: (b ++ [')']), x, by simp, h, b, rfl, heading, fun c member => inside c (mem_crlf.2 (.inl member)),
    broken⟩

theorem fails_crlf (fails : caseDeclaration.Fails before s) : caseDeclaration.Fails before (Text.crlf s) := by
  intro z y v same reads
  obtain ⟨-, opens, spans⟩ := reads_caseDeclaration_iff.1 reads
  obtain ⟨w, x, split, spans⟩ := spans.of_crlf same
  exact fails w x w split (reads_caseDeclaration_iff.2 ⟨rfl, opens, spans⟩)

theorem joined_crlf (joined : RuleSet.Joined ';' caseDeclaration before s out) :
    RuleSet.Joined ';' caseDeclaration before (crlf s) (crlf out) := by
  induction joined with
  | done => exact .done
  | @join before u after v out reads _ ih =>
      obtain ⟨rfl, opens, spans⟩ := reads_caseDeclaration_iff.1 reads
      have reads' : caseDeclaration.Reads before (crlf v) (crlf after) (crlf v) :=
        reads_caseDeclaration_iff.2 ⟨rfl, opens, spans.crlf⟩
      have line : RuleSet.oneLine ';' (crlf v) = RuleSet.oneLine ';' v := by
        rw [RuleSet.oneLine, RuleSet.oneLine, onOneLine_crlf]
      have inline := oneLine_inline v
      rw [← line] at ih
      have whole := RuleSet.Joined.join reads' ih
      rwa [line, ← crlf_append, ← crlf_inline inline, ← crlf_append] at whole
  | @skip before c s out fails _ ih =>
      have missing := fails_crlf fails
      by_cases newline : c = '\n'
      · subst newline
        refine .skip missing (.skip ?_ ih)
        intro u after v _ reads
        exact absurd (reads_caseDeclaration_iff.1 reads).2.1 (by simp)
      · rw [crlf_cons newline] at missing ⊢
        rw [crlf_cons newline]
        exact .skip missing ih

theorem join_crlf (s : List Char) : RuleSet.joinDeclarations ';' caseDeclaration (crlf s) =
    crlf (RuleSet.joinDeclarations ';' caseDeclaration s) :=
  joined_unique (RuleSet.joinDeclarations_joined ';' caseDeclaration_advances (crlf s))
    (joined_crlf (RuleSet.joinDeclarations_joined ';' caseDeclaration_advances s))

/-- Without the production profile it makes no difference to what is rewritten whether the lines of a text end with a
newline alone or with a carriage return before it. -/
theorem rewrite_crlf (embedded : Bool) (s : List Char) :
    (ruleSet ⟨embedded, false⟩).rewrite (crlf s) = crlf ((ruleSet ⟨embedded, false⟩).rewrite s) := by
  have comments := rewrite_crlf_of_readsLines emptyCommentLine_readsLines fun _ => holdsEmptyComment_blank (by decide)
  have imports := rewrite_crlf_of_readsLines importLine_readsLines fun _ => declaresImport_blank (by decide)
  cases embedded with
  | false => exact comments s
  | true =>
      have passes : ∀ z, (ruleSet ⟨true, false⟩).rewrite z = (drop emptyCommentLine).rewrite
          ((drop importLine).rewrite (RuleSet.joinDeclarations ';' caseDeclaration z)) := fun _ => rfl
      rw [passes, passes, join_crlf, imports, comments]

end Swift

end SourceBundle
