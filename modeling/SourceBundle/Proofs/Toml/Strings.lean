import SourceBundle.Toml.Document
import SourceBundle.Proofs.Reading
import Mathlib.Data.Nat.Digits.Defs

/-!
Strings as they are written between double quotes. A character stands for itself, or a backslash and a letter or the
digits of its code point stand for it; the reader gives back the characters, whichever way they were written.
-/

namespace SourceBundle.Toml

def IsText (c : Char) : Prop := c = '\t' ∨ 0x20 ≤ c.toNat ∧ c.toNat ≠ 0x7F

instance (c : Char) : Decidable (IsText c) := inferInstanceAs (Decidable (_ ∨ _))

theorem isPlain_of_isText {c : Char} (text : IsText c) : isPlain c = true := by
  rcases text with rfl | ⟨low, high⟩
  · decide
  · simp only [isPlain, Bool.or_eq_true, Bool.and_eq_true, beq_iff_eq, decide_eq_true_eq]
    omega

theorem IsText.ne_return {c : Char} (text : IsText c) : c ≠ '\r' := by
  rintro rfl
  exact absurd text (by decide)

def escapes : List (Char × Char) :=
  [('b', '\x08'), ('t', '\t'), ('n', '\n'), ('f', '\x0c'), ('r', '\r'), ('"', '"'), ('\\', '\\')]

structure HexDigit where
  value : Fin 16
  capital : Bool := false
  deriving DecidableEq

namespace HexDigit

def char (d : HexDigit) : Char := if d.capital then d.value.val.digitChar.toUpper else d.value.val.digitChar

theorem hexDigit?_char (d : HexDigit) : hexDigit? d.char = some d.value.val := by
  have every : ∀ (v : Fin 16) (capital : Bool), hexDigit? (char ⟨v, capital⟩) = some v.val := by decide
  exact every d.value d.capital

theorem isText_char (d : HexDigit) : IsText d.char := by
  have every : ∀ (v : Fin 16) (capital : Bool), IsText (char ⟨v, capital⟩) := by decide
  exact every d.value d.capital

def number (digits : List HexDigit) : Nat := Nat.ofDigits 16 (digits.reverse.map fun d => d.value.val)

theorem scalar?_number {digits : List HexDigit} {c : Char} (spelled : number digits = c.toNat) :
    scalar? (digits.map char) = some c := by
  have values : ∀ digits : List HexDigit,
      (digits.map char).mapM hexDigit? = some (digits.map fun d => d.value.val) := by
    intro digits
    induction digits with
    | nil => rfl
    | cons d digits ih => rw [List.map_cons, List.mapM_cons, hexDigit?_char, ih, List.map_cons]; rfl
  have folded : (digits.map fun d => d.value.val).foldl (fun n d => 16 * n + d) 0 = c.toNat := by
    rw [← spelled, number, Nat.ofDigits_eq_foldr, List.map_reverse, List.foldr_reverse]
    simp [add_comm]
  rw [scalar?, values digits]
  simp only [bind, Option.bind, folded, Char.ofNat_toNat]
  exact if_pos c.valid

end HexDigit

/-- A character of a string, as it is written between double quotes. -/
inductive Glyph where
  | plain (c : Char) (text : IsText c) (free : c ≠ '"' ∧ c ≠ '\\')
  | letter (e c : Char) (stands : (e, c) ∈ escapes)
  | code (digits : List HexDigit) (size : digits.length = 4 ∨ digits.length = 8) (c : Char)
      (spelled : HexDigit.number digits = c.toNat)

namespace Glyph

def char : Glyph → Char
  | plain c _ _ => c
  | letter _ c _ => c
  | code _ _ c _ => c

def text : Glyph → List Char
  | plain c _ _ => [c]
  | letter e _ _ => ['\\', e]
  | code digits _ _ _ => '\\' :: (if digits.length = 4 then 'u' else 'U') :: digits.map HexDigit.char

theorem basic_text (g : Glyph) (s : List Char) : basic (g.text ++ s) = (basic s).push g.char := by
  cases g with
  | plain c text free =>
      have plain := isPlain_of_isText text
      simp [Glyph.text, char, basic, free, plain]
  | letter e c stands =>
      simp only [escapes, List.mem_cons, Prod.mk.injEq, List.not_mem_nil, or_false] at stands
      rcases stands with ⟨rfl, rfl⟩ | ⟨rfl, rfl⟩ | ⟨rfl, rfl⟩ | ⟨rfl, rfl⟩ | ⟨rfl, rfl⟩ | ⟨rfl, rfl⟩ | ⟨rfl, rfl⟩ <;>
        simp [Glyph.text, char, basic, escape?]
  | code digits size c spelled =>
      have stands := HexDigit.scalar?_number spelled
      match digits, size with
      | [_, _, _, _], _ =>
          simp only [List.map_cons, List.map_nil] at stands
          simp [Glyph.text, char, basic, stands]
      | [_, _, _, _, _, _, _, _], _ =>
          simp only [List.map_cons, List.map_nil] at stands
          simp [Glyph.text, char, basic, stands]

theorem isText_text (g : Glyph) : ∀ c ∈ g.text, IsText c := by
  cases g with
  | plain c text free => simpa [Glyph.text] using text
  | letter e c stands =>
      have every : ∀ escape ∈ escapes, IsText escape.1 := by decide
      simpa [Glyph.text] using ⟨by decide, every _ stands⟩
  | code digits size c spelled =>
      simp only [Glyph.text, List.forall_mem_cons, List.forall_mem_map]
      refine ⟨by decide, by split <;> decide, fun d _ => d.isText_char⟩

theorem head_text (g : Glyph) : g.text.head? ≠ none ∧ g.text.head? ≠ some '"' := by
  cases g with
  | plain c text free => simpa [Glyph.text] using free.1
  | letter e c stands => simp [Glyph.text]
  | code digits size c spelled => simp [Glyph.text]

def digitOf (c : Char) (k : Nat) : HexDigit := ⟨⟨c.toNat / 16 ^ k % 16, Nat.mod_lt _ (by decide)⟩, false⟩

theorem number_digitOf (c : Char) : HexDigit.number ([7, 6, 5, 4, 3, 2, 1, 0].map (digitOf c)) = c.toNat := by
  have small : c.toNat < 16 ^ 8 := by
    have valid : c.toNat < 0xD800 ∨ 0xDFFF < c.toNat ∧ c.toNat < 0x110000 := c.valid
    omega
  simp only [HexDigit.number, digitOf, List.map_cons, List.map_nil, List.reverse_cons, List.reverse_nil,
    List.nil_append, List.cons_append, Nat.ofDigits_cons, Nat.ofDigits_nil]
  omega

/-- Every character can be written, be it by the digits of its code point. -/
theorem exists_char (c : Char) : ∃ g : Glyph, g.char = c :=
  ⟨code _ (.inr rfl) c (number_digitOf c), rfl⟩

end Glyph

def written (gs : List Glyph) : List Char := gs.flatMap Glyph.text

def quote (gs : List Glyph) : List Char := '"' :: (written gs ++ ['"'])

def content (gs : List Glyph) : List Char := gs.map Glyph.char

variable {gs : List Glyph} {s : List Char}

theorem basic_written (gs : List Glyph) (s : List Char) : basic (written gs ++ '"' :: s) = some (content gs, s) := by
  induction gs with
  | nil => simp [written, content, basic]
  | cons g gs ih =>
      rw [written, List.flatMap_cons, ← written, List.append_assoc, g.basic_text, ih]
      rfl

/-- Only a further quote could make the first two of an empty string those of a longer one. -/
theorem quoted_quote (ends : s.head? ≠ some '"') : quoted (quote gs ++ s) = some (content gs, s) := by
  rw [quote, List.cons_append, List.append_assoc, List.singleton_append]
  have single : quoted ('"' :: (written gs ++ '"' :: s)) = basic (written gs ++ '"' :: s) := by
    cases gs with
    | nil =>
        cases s with
        | nil => rfl
        | cons c s =>
            have other : c ≠ '"' := by simpa using ends
            simp [written, quoted, other]
    | cons g gs =>
        obtain ⟨filled, free⟩ := g.head_text
        obtain ⟨c, rest, split⟩ : ∃ c rest, g.text = c :: rest := by
          cases h : g.text <;> simp_all
        have other : c ≠ '"' := by simpa [split] using free
        simp [written, split, quoted, other]
  rw [single, basic_written]

theorem isText_quote (gs : List Glyph) : ∀ c ∈ quote gs, IsText c := by
  simp only [quote, written, List.forall_mem_cons, List.forall_mem_append, List.forall_mem_flatMap]
  exact ⟨by decide, fun g _ => g.isText_text, by decide⟩

theorem exists_content (s : List Char) : ∃ gs, content gs = s := by
  induction s with
  | nil => exact ⟨[], rfl⟩
  | cons c s ih =>
      obtain ⟨g, char⟩ := Glyph.exists_char c
      obtain ⟨gs, rest⟩ := ih
      exact ⟨g :: gs, by rw [content, List.map_cons, char, ← content, rest]⟩

end SourceBundle.Toml
