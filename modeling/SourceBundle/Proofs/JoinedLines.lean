import SourceBundle.Proofs.Comments
import SourceBundle.Proofs.Joining
import SourceBundle.Proofs.Lines
import SourceBundle.Proofs.Pieces

/-!
Lines put together without their newlines. Code is lost where a line with a comment comes before a line with code,
where two slashes meet and where two words meet; anywhere else the tokens of the code are the tokens of the lines.
-/

namespace SourceBundle

/-- The second sequence is the first one where the condition holds, and shorter where it does not. -/
structure KeptIf {α : Type} (P : Prop) (u w : List α) : Prop where
  same : P → w = u
  shorter : ¬ P → w.length < u.length

namespace KeptIf

variable {α : Type} {P Q : Prop} {u v w x : List α}

theorem eq_iff (kept : KeptIf P u w) : w = u ↔ P := by
  constructor
  · intro same
    by_contra lost
    have := kept.shorter lost
    rw [same] at this
    omega
  · exact kept.same

theorem length_le (kept : KeptIf P u w) : w.length ≤ u.length := by
  by_cases holds : P
  · rw [kept.same holds]
  · have := kept.shorter holds
    omega

theorem congr (same : P ↔ Q) (kept : KeptIf P u w) : KeptIf Q u w :=
  ⟨fun holds => kept.same (same.2 holds), fun lost => kept.shorter fun holds => lost (same.1 holds)⟩

theorem append_left (x : List α) (kept : KeptIf P u w) : KeptIf P (x ++ u) (x ++ w) := by
  refine ⟨fun holds => by rw [kept.same holds], fun lost => ?_⟩
  have := kept.shorter lost
  simp only [List.length_append]
  omega

theorem append_right (x : List α) (kept : KeptIf P u w) : KeptIf P (u ++ x) (w ++ x) := by
  refine ⟨fun holds => by rw [kept.same holds], fun lost => ?_⟩
  have := kept.shorter lost
  simp only [List.length_append]
  omega

theorem trans (first : KeptIf P u v) (second : KeptIf Q v w) : KeptIf (P ∧ Q) u w := by
  refine ⟨fun ⟨one, two⟩ => (second.same two).trans (first.same one), fun lost => ?_⟩
  have le := first.length_le
  by_cases holds : P
  · have := second.shorter fun two => lost ⟨holds, two⟩
    omega
  · have := first.shorter holds
    have := second.length_le
    omega

end KeptIf

namespace Text

/-- Lines that lose no code when they are put together. -/
structure Joinable (stretches : List (List Char)) : Prop where
  /-- Behind a line with a comment the lines hold no code. -/
  comment : stretches.Pairwise fun l m => inComment false l = true → codeInk false m = []
  /-- Behind a line without a comment neither two words meet nor two slashes. -/
  meet : stretches.IsChain fun l m => inComment false l = false → Seam isWord l m ∧ Seam (· == '/') l m

variable {inside : Bool} {c : Char} {l m s u w x y : List Char} {stretches : List (List Char)}

theorem codeFrom_append (apart : inComment inside x = false → Seam (· == '/') x y) :
    codeFrom inside (x ++ y) = codeFrom inside x ++ codeFrom (inComment inside x) y := by
  induction x generalizing inside with
  | nil => rfl
  | cons c x ih =>
      have onward : inComment (isCommented inside c x) x = false → Seam (· == '/') x y := by
        intro outside d last e first
        apply apart outside d _ e first
        rw [List.getLast?_cons, Option.mem_def.1 last]
        rfl
      have next : isCommented inside c (x ++ y) = isCommented inside c x := by
        cases x with
        | cons d x => rfl
        | nil =>
            cases inside with
            | true => simp [isCommented]
            | false =>
                have seam := apart (by simp [inComment, isCommented]) c (by simp)
                cases y with
                | nil => rfl
                | cons d y => simpa [isCommented] using fun _ => seam d (by simp)
      rw [List.cons_append, codeFrom, codeFrom, inComment, next]
      cases commented : isCommented inside c x with
      | true =>
          rw [commented] at onward
          simpa using ih onward
      | false =>
          rw [commented] at onward
          simpa using ih onward

theorem codeFrom_comment (inline : Within isInline x) : codeFrom true x = [] := by
  induction x with
  | nil => rfl
  | cons c x ih =>
      rw [within_cons] at inline
      have commented : isCommented true c x = true := by simpa [isCommented, isInline] using inline.1
      rw [codeFrom, commented, if_pos rfl, ih inline.2]

theorem codeFrom_concat (outside : inComment inside (x ++ [c]) = false) :
    ∃ z, codeFrom inside (x ++ [c]) = z ++ [c] := by
  induction x generalizing inside with
  | nil =>
      have code : isCommented inside c [] = false := outside
      exact ⟨[], by simp [codeFrom, code]⟩
  | cons d x ih =>
      obtain ⟨z, ends⟩ := ih outside
      rw [List.cons_append, codeFrom]
      cases commented : isCommented inside d (x ++ [c]) with
      | true => exact ⟨z, by simpa [commented] using ends⟩
      | false => exact ⟨d :: z, by simpa [commented] using ends⟩

theorem getLast?_code (filled : l ≠ []) (outside : inComment false l = false) :
    (code l).getLast? = l.getLast? := by
  obtain ⟨x, c, rfl⟩ := (List.eq_nil_or_concat l).resolve_left filled
  rw [List.concat_eq_append] at outside ⊢
  obtain ⟨z, ends⟩ := codeFrom_concat outside
  rw [code, ends, List.getLast?_concat, List.getLast?_concat]

theorem head?_code (inline : Within isInline x) : ∀ d ∈ (code x).head?, d ∈ x.head? := by
  cases x with
  | nil => simp [code, codeFrom]
  | cons c x =>
      rw [within_cons] at inline
      rw [code, codeFrom]
      split
      · rw [codeFrom_comment inline.2]
        simp
      · simp

theorem codeFrom_slashes (inline : Within isInline y) (outside : inComment inside (x ++ ['/']) = false) :
    codeFrom inside (x ++ ['/']) = codeFrom inside (x ++ '/' :: '/' :: y) ++ ['/'] := by
  induction x generalizing inside with
  | nil =>
      obtain rfl : inside = false := by simpa [inComment, isCommented] using outside
      have behind : codeFrom true ('/' :: y) = [] := codeFrom_comment (by simpa using ⟨by decide, inline⟩)
      simp [codeFrom, isCommented, codeFrom_comment inline]
  | cons d x ih =>
      have next : isCommented inside d (x ++ '/' :: '/' :: y) = isCommented inside d (x ++ ['/']) := by
        cases x <;> rfl
      have later := ih outside
      rw [List.cons_append, List.cons_append, codeFrom, codeFrom, next]
      cases commented : isCommented inside d (x ++ ['/']) with
      | true => simpa [commented] using later
      | false => simpa [commented] using later

theorem isSpacing_of_isWord (word : isWord c = true) : isSpacing c = false := by
  cases spacing : isSpacing c with
  | false => rfl
  | true =>
      rw [isWord_of_isSpacing spacing] at word
      cases word

theorem tokens_append (seam : Seam isWord u w) : tokens (u ++ w) = tokens u ++ tokens w := pieces_append seam

theorem tokens_singleton (solid : isSpacing c = false) : tokens [c] = [[c]] := by
  simp [tokens, pieces, List.splitBy, List.splitBy.loop, solid]

theorem tokens_eq_nil : tokens s = [] ↔ ink s = [] := by
  constructor
  · intro empty
    rw [ink_eq_nil]
    intro c member
    by_contra solid
    obtain ⟨x, y, rfl⟩ := List.append_of_mem member
    have kept : isSpacing c = false := by simpa using solid
    by_cases word : isWord c = true
    · obtain ⟨x, u, rfl, inside, before⟩ := exists_run_end isWord x
      obtain ⟨w, y, split, inside', after⟩ := exists_run isWord (c :: y)
      have filled : w ≠ [] := by
        rintro rfl
        rw [List.nil_append] at split
        rw [← split, stops_cons, word] at after
        cases after
      have left : Seam isWord x (u ++ w) := fun d last e _ => by simp [before d last]
      have right : Seam isWord (x ++ (u ++ w)) y := fun d _ e first => by simp [after e first]
      have piece : tokens (u ++ w) = [u ++ w] :=
        pieces_run (by simpa using fun _ => isSpacing_of_isWord) (by simp [inside, inside']) (by simp [filled])
      have whole : (x ++ u) ++ (w ++ y) = (x ++ (u ++ w)) ++ y := by simp
      rw [split, whole, tokens_append right, tokens_append left, piece] at empty
      simp at empty
    · have left : Seam isWord x [c] := fun d _ e first => by
        obtain rfl : c = e := by simpa using first
        simp [word]
      have right : Seam isWord (x ++ [c]) y := fun d last e _ => by
        obtain rfl : c = d := by simpa using last
        simp [word]
      have whole : x ++ c :: y = (x ++ [c]) ++ y := by simp
      rw [whole, tokens_append right, tokens_append left, tokens_singleton kept] at empty
      simp at empty
  · intro blank
    exact pieces_eq_nil fun c member => by simpa using ink_eq_nil.1 blank c member

theorem codeTokens_eq_nil : tokens (code l) = [] ↔ codeInk false l = [] := tokens_eq_nil

theorem codeTokens_comment (commented : inComment false l = true) (inline : Within isInline x) :
    tokens (code (l ++ x)) = tokens (code l) := by
  have whole : code (l ++ x) = code l ++ codeFrom (inComment false l) x :=
    codeFrom_append fun outside => by rw [commented] at outside; cases outside
  rw [whole, commented, codeFrom_comment inline, List.append_nil]

theorem code_append (outside : inComment false l = false) (slashes : Seam (· == '/') l x) :
    code (l ++ x) = code l ++ code x := by
  rw [code, codeFrom_append fun _ => slashes, outside]

theorem codeTokens_meet (filled : l ≠ []) (outside : inComment false l = false) (inline : Within isInline x)
    (slashes : Seam (· == '/') l x) (words : Seam isWord l x) :
    tokens (code (l ++ x)) = tokens (code l) ++ tokens (code x) := by
  rw [code_append outside slashes]
  apply tokens_append
  intro c last d first
  rw [getLast?_code filled outside] at last
  exact words c last d (head?_code inline d first)

theorem codeTokens_words (filled : l ≠ []) (outside : inComment false l = false)
    (slashes : Seam (· == '/') l x) {d : Char} (last : c ∈ l.getLast?) (first : d ∈ x.head?)
    (word : isWord c = true) (word' : isWord d = true) :
    (tokens (code (l ++ x))).length + 1 = (tokens (code l)).length + (tokens (code x)).length := by
  obtain ⟨x, rfl⟩ := List.head?_eq_some_iff.1 first
  have slash : d ≠ '/' := by
    rintro rfl
    exact absurd word' (by decide +kernel)
  have start : code (d :: x) = d :: code x := by
    have code : isCommented false d x = false := by simp [isCommented, slash]
    rw [Text.code, codeFrom, code]
    rfl
  rw [code_append outside slashes]
  apply length_pieces_fused
  · simpa using fun _ => isSpacing_of_isWord
  · exact ⟨c, by rwa [getLast?_code filled outside], word⟩
  · exact ⟨d, by simp [start], word'⟩

theorem codeTokens_slashes (outside : inComment false l = false) (inline : Within isInline x)
    (last : '/' ∈ l.getLast?) (first : '/' ∈ x.head?) :
    (tokens (code (l ++ x))).length + 1 = (tokens (code l)).length := by
  obtain ⟨l, rfl⟩ := List.getLast?_eq_some_iff.1 last
  obtain ⟨x, rfl⟩ := List.head?_eq_some_iff.1 first
  have slash : Seam isWord (code (l ++ '/' :: '/' :: x)) ['/'] := by
    intro c _ d single
    obtain rfl : '/' = d := by simpa using single
    have : isWord '/' = false := by decide +kernel
    simp [this]
  rw [within_cons] at inline
  have lost : code (l ++ ['/']) = code (l ++ '/' :: '/' :: x) ++ ['/'] := codeFrom_slashes inline.2 outside
  rw [List.append_assoc, List.singleton_append, lost, tokens_append slash, tokens_singleton (by decide),
    List.length_append, List.length_singleton]

theorem joinable_cons : Joinable (l :: stretches) ↔
    (inComment false l = true → ∀ m ∈ stretches, codeInk false m = []) ∧
    (inComment false l = false → ∀ m ∈ stretches.head?, Seam isWord l m ∧ Seam (· == '/') l m) ∧
    Joinable stretches := by
  constructor
  · intro join
    obtain ⟨comment, comment'⟩ := List.pairwise_cons.1 join.comment
    obtain ⟨meet, meet'⟩ := List.isChain_cons.1 join.meet
    exact ⟨fun commented m member => comment m member commented, fun outside m first => meet m first outside,
      comment', meet'⟩
  · intro ⟨comment, meet, join⟩
    exact ⟨List.pairwise_cons.2 ⟨fun m member commented => comment commented m member, join.comment⟩,
      List.isChain_cons.2 ⟨fun m first outside => meet outside m first, join.meet⟩⟩

theorem joinable_of_codeless (filled : ∀ l ∈ stretches, l ≠ []) (codeless : ∀ l ∈ stretches, codeInk false l = []) :
    Joinable stretches := by
  induction stretches with
  | nil => exact ⟨.nil, .nil⟩
  | cons l stretches ih =>
      rw [List.forall_mem_cons] at filled codeless
      refine joinable_cons.2 ⟨fun _ => codeless.2, fun outside m _ => ?_, ih filled.2 codeless.2⟩
      -- Outside a comment the line ends with spacing, which meets neither a word nor a slash.
      have ends : ∀ c ∈ l.getLast?, isSpacing c = true := by
        intro c last
        rw [← getLast?_code filled.1 outside] at last
        exact ink_eq_nil.1 codeless.1 c (List.mem_of_getLast? last)
      constructor
      · intro c last d _
        rw [isWord_of_isSpacing (ends c last), Bool.false_and]
      · intro c last d _
        have slash : c ≠ '/' := by
          rintro rfl
          exact absurd (ends _ last) (by decide)
        simp [slash]

theorem seam_flatten {joins : Char → Bool} (filled : ∀ m ∈ stretches, m ≠ []) :
    Seam joins l stretches.flatten ↔ ∀ m ∈ stretches.head?, Seam joins l m := by
  cases stretches with
  | nil => simp [Seam]
  | cons m stretches =>
      have start : (m ++ stretches.flatten).head? = m.head? := List.head?_append_of_ne_nil m (filled m (by simp))
      simp [Seam, start]

theorem joinable_commented (filled : ∀ m ∈ stretches, m ≠ []) (commented : inComment false l = true) :
    Joinable (l :: stretches) ↔ stretches.flatMap (fun m => tokens (code m)) = [] := by
  rw [joinable_cons, List.flatMap_eq_nil_iff]
  simp only [codeTokens_eq_nil, commented, forall_const, Bool.true_eq_false, false_implies, true_and]
  exact ⟨And.left, fun codeless => ⟨codeless, joinable_of_codeless filled codeless⟩⟩

theorem joinable_code (filled : ∀ m ∈ stretches, m ≠ []) (outside : inComment false l = false) :
    Joinable (l :: stretches) ↔
      (Seam isWord l stretches.flatten ∧ Seam (· == '/') l stretches.flatten) ∧ Joinable stretches := by
  rw [joinable_cons, seam_flatten filled, seam_flatten filled]
  simp only [outside, Bool.false_eq_true, false_implies, true_and, forall_const]
  exact and_congr_left fun _ => forall₂_and

/-- The tokens of lines stay when the lines are put together, or there are fewer. -/
theorem tokens_flatten (inline : ∀ l ∈ stretches, Within isInline l) (filled : ∀ l ∈ stretches, l ≠ []) :
    KeptIf (Joinable stretches) (stretches.flatMap fun l => tokens (code l)) (tokens (code stretches.flatten)) := by
  induction stretches with
  | nil => exact ⟨fun _ => rfl, fun lost => absurd ⟨.nil, .nil⟩ lost⟩
  | cons l stretches ih =>
      rw [List.forall_mem_cons] at inline filled
      have behind : Within isInline stretches.flatten := by
        intro c member
        obtain ⟨m, present, inside⟩ := List.mem_flatten.1 member
        exact inline.2 m present c inside
      have later := ih inline.2 filled.2
      rw [List.flatMap_cons, List.flatten_cons]
      -- A comment at the end of the line takes in what follows; else the seam decides, by slashes and then by words.
      cases commented : inComment false l with
      | true =>
          have none := joinable_commented filled.2 commented
          rw [codeTokens_comment commented behind]
          constructor
          · intro join
            rw [none.1 join, List.append_nil]
          · intro lost
            have := List.length_pos_iff.2 fun empty => lost (none.2 empty)
            rw [List.length_append]
            omega
      | false =>
          have meets := joinable_code filled.2 commented
          by_cases slashes : Seam (· == '/') l stretches.flatten
          · by_cases words : Seam isWord l stretches.flatten
            · rw [codeTokens_meet filled.1 commented behind slashes words]
              apply (later.append_left _).congr
              rw [meets]
              simp [words, slashes]
            · have lost : ¬ Joinable (l :: stretches) := fun join => words (meets.1 join).1.1
              refine ⟨fun join => absurd join lost, fun _ => ?_⟩
              simp only [Seam, not_forall, Bool.not_eq_false, Bool.and_eq_true] at words
              obtain ⟨c, last, d, first, word, word'⟩ := words
              have := codeTokens_words filled.1 commented slashes last first word word'
              have := later.length_le
              rw [List.length_append]
              omega
          · have lost : ¬ Joinable (l :: stretches) := fun join => slashes (meets.1 join).1.2
            refine ⟨fun join => absurd join lost, fun _ => ?_⟩
            simp only [Seam, not_forall, Bool.not_eq_false, Bool.and_eq_true, beq_iff_eq] at slashes
            obtain ⟨c, last, d, first, rfl, rfl⟩ := slashes
            have := codeTokens_slashes commented behind last first
            rw [List.length_append]
            omega

def filledLines (s : List Char) : List (List Char) := ((lines s).map trim).filter (· ≠ [])

theorem onOneLine_eq (s : List Char) : onOneLine s = (filledLines s).flatten := by
  rw [onOneLine, filledLines, List.flatMap_def]
  induction (lines s).map trim with
  | nil => rfl
  | cons l later ih => cases l <;> simp [ih]

theorem filledLines_filled : ∀ l ∈ filledLines s, l ≠ [] := by simp [filledLines]

theorem filledLines_inline : ∀ l ∈ filledLines s, Within isInline l := by
  intro l member c inside
  obtain ⟨w, present, rfl⟩ := List.mem_map.1 (List.mem_filter.1 member).1
  have other : c ≠ '\n' := by
    rintro rfl
    exact mark_not_mem_of_mem_cut present (mem_of_mem_trim inside)
  exact bne_iff_ne.2 other

theorem lines_last (inline : Within isInline w) : lines w = [w] := by
  apply cut_of_not_mem
  intro member
  exact absurd (inline _ member) (by decide)

theorem filledLines_newline (x y : List Char) :
    filledLines (x ++ '\n' :: y) = filledLines x ++ filledLines y := by
  rw [filledLines, lines, cut_append_mark, List.map_append, List.filter_append]
  rfl

theorem onOneLine_newline (x y : List Char) : onOneLine (x ++ '\n' :: y) = onOneLine x ++ onOneLine y := by
  rw [onOneLine_eq, filledLines_newline, List.flatten_append, ← onOneLine_eq, ← onOneLine_eq]

theorem onOneLine_last (inline : Within isInline w) : onOneLine w = trim w := by
  rw [onOneLine, lines_last inline, List.flatMap_singleton]

theorem codeTokens_break (breaks : Stops isInline y) :
    tokens (code (x ++ y)) = tokens (code x) ++ tokens (code y) := by
  cases y with
  | nil => simp [code, codeFrom, tokens, pieces]
  | cons c y =>
      obtain rfl : c = '\n' := by simpa [isInline] using breaks
      have slashes : Seam (· == '/') x ('\n' :: y) := fun d _ e first => by
        obtain rfl : '\n' = e := by simpa using first
        simp
      have words : Seam isWord (code x) (code ('\n' :: y)) := fun d _ e first => by
        obtain rfl : '\n' = e := by simpa [code, codeFrom, isCommented] using first
        have newline : isWord '\n' = false := isWord_of_isBlank (by decide)
        rw [newline, Bool.and_false]
      have onward : codeFrom (inComment false x) ('\n' :: y) = code ('\n' :: y) := by
        simp [code, codeFrom, isCommented]
      have whole : code (x ++ '\n' :: y) = code x ++ codeFrom (inComment false x) ('\n' :: y) :=
        codeFrom_append fun _ => slashes
      rw [whole, onward, tokens_append words]

theorem codeTokens_gap {g : List Char} (spacing : Within isSpacing g) :
    tokens (code (g ++ x)) = tokens (code x) := by
  have outside : inComment false g = false := by
    have gap : inComment false (g ++ []) = inComment (afterGap false g) [] := inComment_gap spacing
    simpa [afterGap, inComment] using gap
  have slashes : Seam (· == '/') g x := fun c last d _ => by
    have slash : c ≠ '/' := by
      rintro rfl
      exact absurd (spacing _ (List.mem_of_getLast? last)) (by decide)
    simp [slash]
  have words : Seam isWord (code g) (code x) := fun c last d _ => by
    have inside : Within isSpacing (code g) := ink_eq_nil.1 (codeInk_spacing spacing)
    rw [isWord_of_isSpacing (inside c (List.mem_of_getLast? last)), Bool.false_and]
  rw [code_append outside slashes, tokens_append words, codeTokens_eq_nil.2 (codeInk_spacing spacing),
    List.nil_append]

theorem codeTokens_gap_end {g : List Char} (spacing : Within isSpacing g) :
    tokens (code (x ++ g)) = tokens (code x) := by
  have slashes : Seam (· == '/') x g := fun c _ d first => by
    have slash : d ≠ '/' := by
      rintro rfl
      exact absurd (spacing _ (List.mem_of_mem_head? first)) (by decide)
    simp [slash]
  have none : ink (codeFrom (inComment false x) g) = [] := codeInk_spacing spacing
  have words : Seam isWord (code x) (codeFrom (inComment false x) g) := fun c _ d first => by
    rw [isWord_of_isSpacing (ink_eq_nil.1 none d (List.mem_of_mem_head? first)), Bool.and_false]
  have whole : code (x ++ g) = code x ++ codeFrom (inComment false x) g := codeFrom_append fun _ => slashes
  rw [whole, tokens_append words, tokens_eq_nil.2 none, List.append_nil]

theorem codeTokens_trim (w : List Char) : tokens (code (trim w)) = tokens (code w) := by
  obtain ⟨g, front, blank⟩ := exists_trimStart w
  obtain ⟨h, back, blank'⟩ := exists_trimEnd (trimStart w)
  calc tokens (code (trim w))
      = tokens (code (trim w ++ h)) := (codeTokens_gap_end (blank'.mono fun _ => isSpacing_of_isBlank)).symm
    _ = tokens (code (trimStart w)) := by rw [trim, ← back]
    _ = tokens (code (g ++ trimStart w)) := (codeTokens_gap (blank.mono fun _ => isSpacing_of_isBlank)).symm
    _ = tokens (code w) := by rw [← front]

theorem codeTokens_filledLines (s : List Char) :
    (filledLines s).flatMap (fun l => tokens (code l)) = tokens (code s) := by
  have single : ∀ w, Within isInline w → (filledLines w).flatMap (fun l => tokens (code l)) = tokens (code w) := by
    intro w inline
    rw [filledLines, lines_last inline, ← codeTokens_trim w, List.map_singleton, List.filter_singleton]
    by_cases blank : trim w = []
    · rw [blank]
      rfl
    · simp [blank]
  induction s using line_cases with
  | empty => exact single [] (within_nil _)
  | last w inline filled => exact single w inline
  | line w s inline ih =>
      have newline : '\n' :: s = ['\n'] ++ s := rfl
      rw [filledLines_newline, List.flatMap_append, single w inline, ih, codeTokens_break (by simp [isInline]),
        newline, codeTokens_gap (by decide)]

/-- Putting the lines of a text on one line keeps the tokens of its code where the lines may be put together. -/
theorem codeTokens_onOneLine (s : List Char) :
    KeptIf (Joinable (filledLines s)) (tokens (code s)) (tokens (code (onOneLine s))) := by
  have kept := tokens_flatten (filledLines_inline (s := s)) filledLines_filled
  rwa [codeTokens_filledLines, ← onOneLine_eq] at kept

end Text

end SourceBundle
