/-!
White space. A blank is a code point with the Unicode property White_Space; an inline blank is any
of them but the newline, so that a run of inline blanks never leaves its line.
-/

namespace SourceBundle.Text

/-- Holds of the twenty-five code points with the property White_Space. -/
def isBlank (c : Char) : Bool :=
  let n := c.toNat
  if n < 0x80 then n == 0x20 || (0x09 ≤ n && n ≤ 0x0D)
  else
    n == 0x85 || n == 0xA0 || n == 0x1680 || (0x2000 ≤ n && n ≤ 0x200A) || n == 0x2028 ||
      n == 0x2029 || n == 0x202F || n == 0x205F || n == 0x3000

def isInlineBlank (c : Char) : Bool := isBlank c && c != '\n'

def isInline (c : Char) : Bool := c != '\n'

def trimStart (s : List Char) : List Char := s.dropWhile isBlank

def trimEnd (s : List Char) : List Char := (s.reverse.dropWhile isBlank).reverse

def trim (s : List Char) : List Char := trimEnd (trimStart s)

def trimmed (s : String) : String := String.ofList (trim s.toList)

theorem isBlank_of_isInlineBlank {c : Char} (h : isInlineBlank c = true) : isBlank c = true := by
  simp only [isInlineBlank, Bool.and_eq_true] at h
  exact h.1

theorem isInline_of_isInlineBlank {c : Char} (h : isInlineBlank c = true) : isInline c = true := by
  simp only [isInlineBlank, Bool.and_eq_true] at h
  exact h.2

end SourceBundle.Text
