/-!
Strings of a TOML document, in the four ways of quoting them. Each reader starts behind the opening
quotes and returns the text with what follows the closing ones. Line ends are newlines here.
-/

namespace SourceBundle.Toml

def isPlain (c : Char) : Bool :=
  let n := c.toNat
  n == 9 || (0x20 ≤ n && n ≤ 0x7E) || 0x80 ≤ n

def isGap (c : Char) : Bool := c == ' ' || c == '\t'

def escape? : Char → Option Char
  | 'b' => some '\x08'
  | 't' => some '\t'
  | 'n' => some '\n'
  | 'f' => some '\x0c'
  | 'r' => some '\r'
  | '"' => some '"'
  | '\\' => some '\\'
  | _ => none

def hexDigit? (c : Char) : Option Nat :=
  if c.isDigit then some (c.toNat - '0'.toNat)
  else if 'a' ≤ c && c ≤ 'f' then some (c.toNat - 'a'.toNat + 10)
  else if 'A' ≤ c && c ≤ 'F' then some (c.toNat - 'A'.toNat + 10)
  else none

def scalar? (digits : List Char) : Option Char := do
  let digits ← digits.mapM hexDigit?
  let n := digits.foldl (fun n d => 16 * n + d) 0
  if n.isValidChar then some (Char.ofNat n) else none

abbrev Reading := Option (List Char × List Char)

def Reading.push (c : Char) (r : Reading) : Reading := r.map fun (text, rest) => (c :: text, rest)

def basic : List Char → Reading
  | [] => none
  | '"' :: s => some ([], s)
  | '\\' :: 'u' :: a :: b :: c :: d :: s =>
      (scalar? [a, b, c, d]).bind fun x => (basic s).push x
  | '\\' :: 'U' :: a :: b :: c :: d :: e :: f :: g :: h :: s =>
      (scalar? [a, b, c, d, e, f, g, h]).bind fun x => (basic s).push x
  | '\\' :: e :: s => (escape? e).bind fun x => (basic s).push x
  | c :: s => if isPlain c && c != '\\' then (basic s).push c else none

def literal : List Char → Reading
  | [] => none
  | '\'' :: s => some ([], s)
  | c :: s => if isPlain c then (literal s).push c else none

inductive Skip where
  | nothing
  | toNewline
  | blanks
  deriving DecidableEq, Repr

/-- A string between triple double quotes. Up to two further quotes before the closing ones belong
to the text. -/
def multilineBasic : Skip → List Char → Reading
  | _, [] => none
  | .toNewline, c :: s =>
      if c = '\n' then multilineBasic .blanks s
      else if isGap c then multilineBasic .toNewline s
      else none
  | _, '"' :: '"' :: '"' :: '"' :: '"' :: s => some (['"', '"'], s)
  | _, '"' :: '"' :: '"' :: '"' :: s => some (['"'], s)
  | _, '"' :: '"' :: '"' :: s => some ([], s)
  | _, '\\' :: 'u' :: a :: b :: c :: d :: s =>
      (scalar? [a, b, c, d]).bind fun x => (multilineBasic .nothing s).push x
  | _, '\\' :: 'U' :: a :: b :: c :: d :: e :: f :: g :: h :: s =>
      (scalar? [a, b, c, d, e, f, g, h]).bind fun x => (multilineBasic .nothing s).push x
  | _, '\\' :: e :: s =>
      if e = '\n' then multilineBasic .blanks s
      else if isGap e then multilineBasic .toNewline s
      else (escape? e).bind fun x => (multilineBasic .nothing s).push x
  | skip, c :: s =>
      if skip = .blanks && (isGap c || c == '\n') then multilineBasic .blanks s
      else if (isPlain c || c == '\n') && c != '\\' then (multilineBasic .nothing s).push c
      else none

def multilineLiteral : List Char → Reading
  | [] => none
  | '\'' :: '\'' :: '\'' :: '\'' :: '\'' :: s => some (['\'', '\''], s)
  | '\'' :: '\'' :: '\'' :: '\'' :: s => some (['\''], s)
  | '\'' :: '\'' :: '\'' :: s => some ([], s)
  | c :: s => if isPlain c || c == '\n' then (multilineLiteral s).push c else none

def dropNewline : List Char → List Char
  | '\n' :: s => s
  | s => s

def quoted : List Char → Reading
  | '"' :: '"' :: '"' :: s => multilineBasic .nothing (dropNewline s)
  | '"' :: s => basic s
  | '\'' :: '\'' :: '\'' :: s => multilineLiteral (dropNewline s)
  | '\'' :: s => literal s
  | _ => none

end SourceBundle.Toml
