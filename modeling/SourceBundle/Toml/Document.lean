import SourceBundle.Toml.Scalar

/-!
Reading a TOML document. `Toml.read` gives the fields of its root table, or nothing if the text is
no TOML document. Every loop takes its bound from the length of the text that it reads.
-/

namespace SourceBundle.Toml

def unifyLineEnds : List Char → List Char
  | '\r' :: '\n' :: s => '\n' :: unifyLineEnds s
  | c :: s => c :: unifyLineEnds s
  | [] => []

def skipGap (s : List Char) : List Char := s.dropWhile isGap

def skipComment : List Char → Option (List Char)
  | '#' :: s =>
      match s.dropWhile isPlain with
      | [] => some []
      | '\n' :: rest => some ('\n' :: rest)
      | _ => none
  | s => some s

def skipLines : Nat → List Char → Option (List Char)
  | 0, s => some s
  | bound + 1, s => do
      match ← skipComment (skipGap s) with
      | '\n' :: rest => skipLines bound rest
      | rest => some rest

def finishLine (s : List Char) : Option (List Char) := do
  match ← skipComment (skipGap s) with
  | [] => some []
  | '\n' :: rest => some rest
  | _ => none

def isBareKeyPart (c : Char) : Bool := c.isAlphanum || c == '_' || c == '-'

def simpleKey (s : List Char) : Reading :=
  match s with
  | '"' :: rest => basic rest
  | '\'' :: rest => literal rest
  | _ =>
      let key := s.takeWhile isBareKeyPart
      if key.isEmpty then none else some (key, s.dropWhile isBareKeyPart)

/-- Keys with dots between them: the ways to the last one, the last one, and what follows. -/
def dottedKey : Nat → List Char → Option (List String × String × List Char)
  | 0, _ => none
  | bound + 1, s => do
      let (key, rest) ← simpleKey (skipGap s)
      let key := String.ofList key
      match skipGap rest with
      | '.' :: rest => do
          let (way, last, rest) ← dottedKey bound rest
          return (key :: way, last, rest)
      | rest => return ([], key, rest)

/-- How deep arrays, inline tables and the tables of a single key may be nested. -/
def greatestDepth : Nat := 79

def keyPath (s : List Char) : Option (List String × String × List Char) := do
  let (way, key, rest) ← dottedKey s.length s
  if way.length < greatestDepth then some (way, key, rest) else none

abbrev ValueReader := List Char → Option (Value × List Char)

def keyValue (value : ValueReader) (s : List Char) :
    Option (List String × String × Value × List Char) := do
  let (way, key, rest) ← keyPath s
  match rest with
  | '=' :: rest => do
      let (v, rest) ← value (skipGap rest)
      return (way, key, v, rest)
  | _ => none

/-- The elements of an array, from behind its bracket or a comma; a comma may follow the last. -/
def elements (value : ValueReader) : Nat → List Char → Option (List Value × List Char)
  | 0, _ => none
  | bound + 1, s => do
      match ← skipLines s.length s with
      | ']' :: rest => return ([], rest)
      | s => do
          let (v, rest) ← value s
          match ← skipLines rest.length rest with
          | ']' :: rest => return ([v], rest)
          | ',' :: rest => do
              let (vs, rest) ← elements value bound rest
              return (v :: vs, rest)
          | _ => none

def inlineFields (value : ValueReader) : Nat → Fields → List Char → Option (Fields × List Char)
  | 0, _, _ => none
  | bound + 1, fields, s => do
      let (way, key, v, rest) ← keyValue value s
      let fields ← assign way key v .header fields
      match skipGap rest with
      | '\x7d' :: rest => return (fields, rest)
      | ',' :: rest => inlineFields value bound fields rest
      | _ => none

def inlineTable (value : ValueReader) (s : List Char) : Option (Fields × List Char) :=
  match skipGap s with
  | '\x7d' :: rest => some ([], rest)
  | s => inlineFields value s.length [] s

def value : Nat → ValueReader
  | depth, s =>
      match s with
      | '"' :: _ => (quoted s).map fun (text, rest) => (.string (String.ofList text), rest)
      | '\'' :: _ => (quoted s).map fun (text, rest) => (.string (String.ofList text), rest)
      | '[' :: rest =>
          match depth with
          | 0 => none
          | depth + 1 =>
              (elements (value depth) s.length rest).map fun (vs, rest) => (.array false vs, rest)
      | '\x7b' :: rest =>
          match depth with
          | 0 => none
          | depth + 1 =>
              (inlineTable (value depth) rest).map fun (fields, rest) =>
                (.table .inline fields, rest)
      | _ =>
          let (scalar, rest) := takeScalar s
          (ofScalar? scalar).map fun v => (v, rest)

/-- One line that is not blank: the table of the last header and the root table after it, and the
lines that follow. -/
def line (header : List String) (root : Fields) (s : List Char) :
    Option (List String × Fields × List Char) :=
  match s with
  | '[' :: '[' :: rest => do
      match ← keyPath rest with
      | (way, key, ']' :: ']' :: rest) =>
          return (way ++ [key], ← openElement way key root, ← finishLine rest)
      | _ => none
  | '[' :: rest => do
      match ← keyPath rest with
      | (way, key, ']' :: rest) =>
          return (way ++ [key], ← openTable way key root, ← finishLine rest)
      | _ => none
  | _ => do
      let (way, key, v, rest) ← keyValue (value greatestDepth) s
      return (header, ← assignUnder header way key v root, ← finishLine rest)

def document : Nat → List String → Fields → List Char → Option Fields
  | 0, _, root, s => if s.isEmpty then some root else none
  | bound + 1, header, root, s => do
      match ← skipLines s.length s with
      | [] => return root
      | s => do
          let (header, root, rest) ← line header root s
          document bound header root rest

def dropMark : List Char → List Char
  | '\uFEFF' :: s => s
  | s => s

def read (s : List Char) : Option Fields :=
  let s := unifyLineEnds (dropMark s)
  document (s.length + 1) [] [] s

end SourceBundle.Toml
