import SourceBundle.Proofs.Toml.Strings

/-!
Values as they are written: strings between double quotes, booleans, and arrays of such strings with the blanks,
newlines and comments that may stand between the elements. The reader gives back the value, whatever follows it on the
line.
-/

namespace SourceBundle.Toml

abbrev Gap := {u : List Char // ∀ c ∈ u, c = ' ' ∨ c = '\t'}

def Gap.none : Gap := ⟨[], by simp⟩

/-- What may stand at the end of a line: blanks, and perhaps a comment. -/
structure Trail where
  gap : Gap := .none
  comment : Option {u : List Char // ∀ c ∈ u, IsText c} := Option.none

def Trail.text (t : Trail) : List Char := t.gap.1 ++ t.comment.elim [] fun u => '#' :: u.1

/-- What may stand between the elements of an array: the ends of some lines, and blanks. -/
structure Filler where
  lines : List Trail := []
  gap : Gap := .none

def Filler.text (f : Filler) : List Char := f.lines.flatMap (fun t => t.text ++ ['\n']) ++ f.gap.1

def isLoose (c : Char) : Bool := isGap c || c == '#' || c == '\n'

variable {s w : List Char} {n depth : Nat}

theorem skipGap_gap (g : Gap) (s : List Char) : skipGap (g.1 ++ s) = skipGap s := by
  apply List.dropWhile_append_of_pos
  intro c member
  rcases g.2 c member with rfl | rfl <;> rfl

theorem skipGap_self (stops : Stops isGap s) : skipGap s = s := by
  cases s with
  | nil => rfl
  | cons c s => simp_all [skipGap]

theorem stops_isGap (stops : Stops isLoose s) : Stops isGap s := by
  intro c head
  have solid := stops c head
  simp_all [isLoose]

theorem skipComment_trail (t : Trail) (ends : ∀ c ∈ s.head?, c = '\n') :
    skipComment (skipGap (t.text ++ s)) = some s := by
  rw [Trail.text, List.append_assoc, skipGap_gap]
  cases t.comment with
  | none =>
      cases s with
      | nil => rfl
      | cons c s =>
          obtain rfl : c = '\n' := by simpa using ends
          rfl
  | some u =>
      have plain : ∀ c ∈ u.1, isPlain c = true := fun c member => isPlain_of_isText (u.2 c member)
      change skipComment ('#' :: (u.1 ++ s)) = some s
      rw [skipComment, List.dropWhile_append_of_pos plain]
      cases s with
      | nil => rfl
      | cons c s =>
          obtain rfl : c = '\n' := by simpa using ends
          rfl

theorem finishLine_trail (t : Trail) (s : List Char) :
    finishLine t.text = some [] ∧ finishLine (t.text ++ '\n' :: s) = some s := by
  have last := skipComment_trail (s := []) t (by simp)
  rw [List.append_nil] at last
  constructor
  · rw [finishLine, last]
    rfl
  · rw [finishLine, skipComment_trail t (by simp)]
    rfl

theorem skipLines_trail (n : Nat) (t : Trail) (s : List Char) :
    skipLines (n + 1) (t.text ++ '\n' :: s) = skipLines n s := by
  rw [skipLines, skipComment_trail t (by simp)]
  rfl

theorem length_skipComment {u : List Char} (skipped : skipComment (skipGap s) = some u) : u.length ≤ s.length := by
  have shorter : ∀ (p : Char → Bool) (s : List Char), (s.dropWhile p).length ≤ s.length := fun p s =>
    (List.dropWhile_sublist p).length_le
  have blanks := shorter isGap s
  rw [← skipGap] at blanks
  unfold skipComment at skipped
  split at skipped
  · rename_i v comment
    have text := shorter isPlain v
    rw [comment, List.length_cons] at blanks
    split at skipped
    · cases skipped
      exact Nat.zero_le _
    · rename_i w rest
      cases skipped
      rw [rest] at text
      omega
    · cases skipped
  · cases skipped
    exact blanks

theorem skipLines_last (t : Trail) : skipLines (n + 1) t.text = some [] := by
  have last := skipComment_trail (s := []) t (by simp)
  rw [List.append_nil] at last
  rw [skipLines, last]
  rfl

theorem skipLines_stable {m : Nat} (first : s.length ≤ m) (second : s.length ≤ n) :
    skipLines m s = skipLines n s := by
  induction m generalizing n s with
  | zero =>
      obtain rfl : s = [] := List.length_eq_zero_iff.1 (Nat.le_zero.1 first)
      cases n <;> rfl
  | succ m ih =>
      cases n with
      | zero =>
          obtain rfl : s = [] := List.length_eq_zero_iff.1 (Nat.le_zero.1 second)
          rfl
      | succ n =>
          rw [skipLines, skipLines]
          cases skipped : skipComment (skipGap s) with
          | none => rfl
          | some u =>
              have shorter := length_skipComment skipped
              simp only [bind, Option.bind]
              split
              · rw [List.length_cons] at shorter
                exact ih (by omega) (by omega)
              · rfl

theorem skipLines_gap (g : Gap) (stops : Stops isLoose s) : skipLines (n + 1) (g.1 ++ s) = some s := by
  rw [skipLines, skipGap_gap, skipGap_self (stops_isGap stops)]
  cases s with
  | nil => rfl
  | cons c s =>
      obtain ⟨⟨-, comment⟩, newline⟩ : (_ ∧ c ≠ '#') ∧ c ≠ '\n' := by simpa [isLoose] using stops
      simp [skipComment, comment, newline]

theorem skipLines_filler (f : Filler) (stops : Stops isLoose s) (more : f.lines.length < n) :
    skipLines n (f.text ++ s) = some s := by
  obtain ⟨lines, gap⟩ := f
  rw [Filler.text]
  induction lines generalizing n with
  | nil =>
      obtain ⟨n, rfl⟩ := Nat.exists_eq_add_of_lt more
      exact skipLines_gap gap stops
  | cons t lines ih =>
      obtain ⟨n, rfl⟩ : ∃ m, n = m + 1 := ⟨n - 1, by simp at more; omega⟩
      simp only [List.flatMap_cons, List.append_assoc, List.cons_append, skipLines_trail]
      simpa using ih (by simpa using more)

theorem length_lines_filler (f : Filler) : f.lines.length ≤ f.text.length := by
  obtain ⟨lines, gap⟩ := f
  induction lines with
  | nil => simp
  | cons t lines ih => simp_all [Filler.text]; omega

theorem skipLines_text (f : Filler) (filled : s ≠ []) (stops : Stops isLoose s) :
    skipLines (f.text ++ s).length (f.text ++ s) = some s := by
  apply skipLines_filler f stops
  have few := length_lines_filler f
  have more := List.length_pos_iff.2 filled
  rw [List.length_append]
  omega

theorem stops_solid {c : Char} (solid : isLoose c = false) : Stops isLoose (c :: s) := by
  simpa using solid

theorem head_trail (t : Trail) (s : List Char) : ∀ c ∈ (t.text ++ s).head?, isLoose c = true ∨ c ∈ s.head? := by
  obtain ⟨⟨gap, blank⟩, comment⟩ := t
  intro c head
  cases gap with
  | cons d gap =>
      obtain rfl : d = c := by simpa [Trail.text] using head
      rcases blank d (by simp) with rfl | rfl <;> exact .inl rfl
  | nil =>
      cases comment with
      | none => exact .inr head
      | some u =>
          obtain rfl : '#' = c := by simpa [Trail.text] using head
          exact .inl rfl

theorem Trail.head_broken (t : Trail) (s : List Char) : ∀ c ∈ (t.text ++ '\n' :: s).head?, isLoose c = true := by
  intro c head
  rcases head_trail t _ c head with loose | head
  · exact loose
  · obtain rfl : '\n' = c := by simpa using head
    rfl

theorem Trail.head_last (t : Trail) : ∀ c ∈ t.text.head?, isLoose c = true := by
  intro c head
  rcases head_trail t [] c (by simpa using head) with loose | head
  · exact loose
  · cases head

theorem Gap.return_not_mem (g : Gap) : '\r' ∉ g.1 := by
  intro member
  rcases g.2 _ member with same | same <;> cases same

theorem Trail.return_not_mem (t : Trail) : '\r' ∉ t.text := by
  obtain ⟨gap, comment⟩ := t
  have blank := gap.return_not_mem
  cases comment with
  | none => simpa [Trail.text] using blank
  | some u => simpa [Trail.text] using ⟨blank, fun member => (u.2 _ member).ne_return rfl⟩

theorem Filler.return_not_mem (f : Filler) : '\r' ∉ f.text := by
  simp [Filler.text, f.gap.return_not_mem, Trail.return_not_mem]

theorem head_filler (f : Filler) {d : Char} (solid : isLoose d = false) (ends : s.head? ≠ some d) :
    (f.text ++ s).head? ≠ some d := by
  obtain ⟨lines, gap⟩ := f
  have loose : ∀ c ∈ (Filler.text ⟨lines, gap⟩ ++ s).head?, isLoose c = true ∨ c ∈ s.head? := by
    cases lines with
    | nil => simpa [Filler.text, Trail.text] using head_trail ⟨gap, none⟩ s
    | cons t lines =>
        intro c head
        simp only [Filler.text, List.flatMap_cons, List.append_assoc, List.cons_append] at head
        rcases head_trail t _ c head with loose | head
        · exact .inl loose
        · obtain rfl : '\n' = c := by simpa using head
          exact .inl rfl
  intro head
  rcases loose d head with loose | head
  · rw [solid] at loose
    cases loose
  · exact ends head

theorem head_gap (g : Gap) {d : Char} (solid : isLoose d = false) (ends : s.head? ≠ some d) :
    (g.1 ++ s).head? ≠ some d := head_filler ⟨[], g⟩ solid ends

inductive Items where
  | done (space : Filler)
  | last (before : Filler) (gs : List Glyph) (after : Filler)
  | more (before : Filler) (gs : List Glyph) (after : Filler) (later : Items)

namespace Items

def text : Items → List Char
  | done space => space.text ++ [']']
  | last before gs after => before.text ++ (quote gs ++ (after.text ++ [']']))
  | more before gs after later => before.text ++ (quote gs ++ (after.text ++ ',' :: later.text))

theorem return_not_mem (items : Items) : '\r' ∉ items.text := by
  have quoted : ∀ gs, '\r' ∉ quote gs := fun gs member => (isText_quote gs _ member).ne_return rfl
  induction items with
  | done space => simp [text, space.return_not_mem]
  | last before gs after => simp [text, before.return_not_mem, quoted, after.return_not_mem]
  | more before gs after later ih => simp [text, before.return_not_mem, quoted, after.return_not_mem, ih]

def contents : Items → List String
  | done _ => []
  | last _ gs _ => [String.ofList (content gs)]
  | more _ gs _ later => String.ofList (content gs) :: later.contents

end Items

theorem value_quote (gs : List Glyph) (ends : s.head? ≠ some '"') :
    value depth (quote gs ++ s) = some (.string (String.ofList (content gs)), s) := by
  have read : quoted (quote gs ++ s) = some (content gs, s) := quoted_quote ends
  rw [quote, List.cons_append] at read ⊢
  rw [value, read]
  rfl

/-- An element of an array is read between what may stand around it; what comes then tells whether the array goes
on. -/
theorem elements_item {read : ValueReader} {s' rest : List Char} {v : Value} {c : Char}
    (before : skipLines s.length s = some s') (element : s'.head? ≠ some ']') (item : read s' = some (v, rest))
    (after : skipLines rest.length rest = some (c :: w)) :
    (c = ']' → elements read (n + 1) s = some ([v], w)) ∧
      (c = ',' → elements read (n + 1) s = (elements read n w).map fun (vs, rest) => (v :: vs, rest)) := by
  rw [elements, before]
  simp only [bind, Option.bind]
  split
  · exact absurd rfl element
  · rw [item]
    simp only [after]
    constructor
    · rintro rfl
      rfl
    · rintro rfl
      change (elements read n w).bind (fun (vs, rest) => some (v :: vs, rest)) = _
      cases elements read n w <;> rfl

theorem elements_string (before after : Filler) (gs : List Glyph) (w : List Char) {c : Char} (solid : isLoose c = false)
    (ends : c ≠ '"') :
    (c = ']' → elements (value depth) (n + 1) (before.text ++ (quote gs ++ (after.text ++ c :: w))) =
      some ([.string (String.ofList (content gs))], w)) ∧
    (c = ',' → elements (value depth) (n + 1) (before.text ++ (quote gs ++ (after.text ++ c :: w))) =
      (elements (value depth) n w).map fun (vs, rest) => (.string (String.ofList (content gs)) :: vs, rest)) := by
  have closed : (after.text ++ c :: w).head? ≠ some '"' := head_filler after (by decide) (by simpa using ends)
  exact elements_item (skipLines_text before (by simp [quote]) (stops_solid (by decide))) (by simp [quote])
    (value_quote gs closed) (skipLines_text after (List.cons_ne_nil _ _) (stops_solid solid))

theorem elements_text (items : Items) (s : List Char) (more : items.text.length ≤ n) :
    elements (value depth) n (items.text ++ s) = some (items.contents.map .string, s) := by
  induction items generalizing n with
  | done space =>
      obtain ⟨n, rfl⟩ : ∃ m, n = m + 1 := ⟨n - 1, by simp [Items.text] at more; omega⟩
      rw [Items.text, List.append_assoc, List.singleton_append, elements,
        skipLines_text space (by simp) (stops_solid (by decide))]
      rfl
  | last before gs after =>
      obtain ⟨n, rfl⟩ : ∃ m, n = m + 1 := ⟨n - 1, by simp [Items.text] at more; omega⟩
      simp only [Items.text, List.append_assoc, List.singleton_append]
      exact (elements_string before after gs s (by decide) (by decide)).1 rfl
  | more before gs after later ih =>
      obtain ⟨n, rfl⟩ : ∃ m, n = m + 1 := ⟨n - 1, by simp [Items.text] at more; omega⟩
      simp only [Items.text, List.append_assoc, List.cons_append]
      rw [(elements_string before after gs (later.text ++ s) (by decide) (by decide)).2 rfl,
        ih (by simp [Items.text] at more; omega)]
      rfl

theorem takeWhile_run {p : Char → Bool} {u : List Char} (within : ∀ c ∈ u, p c = true) (stops : Stops p s) :
    (u ++ s).takeWhile p = u ∧ (u ++ s).dropWhile p = s := by
  rw [List.takeWhile_append_of_pos within, List.dropWhile_append_of_pos within]
  cases s <;> simp_all

theorem takeScalar_append {u : List Char} (part : ∀ c ∈ u, isScalarPart c = true) (undated : afterDate? u ≠ some [])
    (ends : ∀ c ∈ s.head?, isLoose c = true) : takeScalar (u ++ s) = (u, s) := by
  have apart : Stops isScalarPart s := by
    intro c head
    have loose := ends c head
    simp only [isLoose, isGap, Bool.or_eq_true, beq_iff_eq] at loose
    rcases loose with ((rfl | rfl) | rfl) | rfl <;> decide
  obtain ⟨first, rest⟩ := takeWhile_run part apart
  rw [takeScalar, first, rest]
  split
  · simp [undated]
  · rfl

inductive Written where
  | string (gs : List Glyph)
  | boolean (b : Bool)
  | strings (items : Items)

namespace Written

def text : Written → List Char
  | string gs => quote gs
  | boolean b => if b then "true".toList else "false".toList
  | strings items => '[' :: items.text

def value : Written → Value
  | string gs => .string (String.ofList (content gs))
  | boolean b => .boolean b
  | strings items => .array false (items.contents.map .string)

theorem stops_text (w : Written) (s : List Char) : Stops isGap (w.text ++ s) := by
  cases w with
  | string gs => simp [text, quote, isGap]
  | boolean b => cases b <;> exact (stops_cons _ _ _).2 rfl
  | strings items => simp [text, isGap]

theorem return_not_mem (w : Written) : '\r' ∉ w.text := by
  cases w with
  | string gs => exact fun member => (isText_quote gs _ member).ne_return rfl
  | boolean b => cases b <;> decide
  | strings items => simpa [text] using items.return_not_mem

theorem value_text (w : Written) (ends : ∀ c ∈ s.head?, isLoose c = true) :
    Toml.value (depth + 1) (w.text ++ s) = some (w.value, s) := by
  cases w with
  | string gs =>
      refine value_quote gs fun quoted => ?_
      exact absurd (ends '"' (by simp [quoted])) (by decide)
  | boolean b =>
      have scalar : takeScalar ((boolean b).text ++ s) = ((boolean b).text, s) := by
        cases b <;> exact takeScalar_append (by decide) (by decide) ends
      have read : Toml.value (depth + 1) ((boolean b).text ++ s) =
          (ofScalar? (takeScalar ((boolean b).text ++ s)).1).map fun v =>
            (v, (takeScalar ((boolean b).text ++ s)).2) := by
        cases b <;> rfl
      rw [read, scalar]
      cases b <;> rfl
  | strings items =>
      rw [Written.text, List.cons_append, Toml.value, elements_text items s (by simp; omega)]
      rfl

end Written

end SourceBundle.Toml
