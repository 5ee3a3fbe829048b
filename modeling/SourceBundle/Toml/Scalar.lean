import SourceBundle.Toml.Value
import SourceBundle.Toml.Quoted

/-!
Values of a TOML document without quotes: booleans, numbers, dates and times. The characters that
can stand in one are taken together, and then have to be one as a whole.
-/

namespace SourceBundle.Toml

def isDigits (isDigit : Char → Bool) : List Char → Bool
  | [] => false
  | [c] => isDigit c
  | c :: '_' :: s => isDigit c && isDigits isDigit s
  | c :: s => isDigit c && isDigits isDigit s

def numeral (base : Nat) (s : List Char) : Nat :=
  s.foldl (fun n c => match hexDigit? c with
    | some d => base * n + d
    | none => n) 0

def isDecimal (s : List Char) : Bool :=
  s == ['0'] || (isDigits Char.isDigit s && s.head? != some '0')

def inRange (n : Int) : Option Value :=
  if -0x8000000000000000 ≤ n && n < 0x8000000000000000 then some (.integer n) else none

def unsigned? (isDigit : Char → Bool) (base : Nat) (s : List Char) : Option Value :=
  if isDigits isDigit s then inRange (numeral base s) else none

def signed? : List Char → Option Value
  | '-' :: s => if isDecimal s then inRange (-numeral 10 s) else none
  | '+' :: s => if isDecimal s then inRange (numeral 10 s) else none
  | s => if isDecimal s then inRange (numeral 10 s) else none

def integer? : List Char → Option Value
  | '0' :: 'x' :: s => unsigned? (fun c => (hexDigit? c).isSome) 16 s
  | '0' :: 'o' :: s => unsigned? (fun c => '0' ≤ c && c ≤ '7') 8 s
  | '0' :: 'b' :: s => unsigned? (fun c => c == '0' || c == '1') 2 s
  | s => signed? s

def dropSign : List Char → List Char
  | '+' :: s => s
  | '-' :: s => s
  | s => s

def isExponent : List Char → Bool
  | 'e' :: s => isDigits Char.isDigit (dropSign s)
  | 'E' :: s => isDigits Char.isDigit (dropSign s)
  | _ => false

def isNumeralPart (c : Char) : Bool := c.isDigit || c == '_'

def isFraction : List Char → Bool
  | '.' :: s =>
      isDigits Char.isDigit (s.takeWhile isNumeralPart) &&
        (s.dropWhile isNumeralPart == [] || isExponent (s.dropWhile isNumeralPart))
  | _ => false

def isDecimalFloat (s : List Char) : Bool :=
  let s := dropSign s
  let rest := s.dropWhile isNumeralPart
  isDecimal (s.takeWhile isNumeralPart) && (isFraction rest || isExponent rest)

def exponent : List Char → Int
  | _ :: '-' :: s => -(numeral 10 s : Int)
  | _ :: s => numeral 10 (dropSign s)
  | [] => 0

def overflowBound : Nat := Nat.pow 2 1024 - Nat.pow 2 970

/-- The number `digits * 10 ^ scale` is too great for a float. A number with more than 309 digits
is, and one with fewer is not. -/
def overflows (digits : Nat) (scale : Int) : Bool :=
  let size := (toString digits).length + scale
  digits != 0 && (309 < size ||
    (size = 309 &&
      overflowBound * Nat.pow 10 (-scale).toNat ≤ digits * Nat.pow 10 scale.toNat))

def isFinite (s : List Char) : Bool :=
  let whole := s.takeWhile isNumeralPart
  match s.dropWhile isNumeralPart with
  | '.' :: rest =>
      let fraction := (rest.takeWhile isNumeralPart).filter Char.isDigit
      !overflows (numeral 10 (whole ++ fraction))
        (exponent (rest.dropWhile isNumeralPart) - fraction.length)
  | rest => !overflows (numeral 10 whole) (exponent rest)

/-- A float. Only below zero may a decimal be beyond all finite ones. -/
def isFloat (s : List Char) : Bool :=
  dropSign s == ['i', 'n', 'f'] || dropSign s == ['n', 'a', 'n'] ||
    (isDecimalFloat s && (s.head? == some '-' || isFinite (dropSign s)))

def twoDigits (greatest : Nat) : List Char → Option (Nat × List Char)
  | a :: b :: s =>
      let n := numeral 10 [a, b]
      if a.isDigit && b.isDigit && n ≤ greatest then some (n, s) else none
  | _ => none

def daysIn (year month : Nat) : Nat :=
  if month = 2 then if year % 4 = 0 && (year % 100 != 0 || year % 400 = 0) then 29 else 28
  else if [4, 6, 9, 11].contains month then 30 else 31

def afterDate? : List Char → Option (List Char)
  | a :: b :: c :: d :: '-' :: s => do
      if [a, b, c, d].any fun c => !c.isDigit then none
      match ← twoDigits 12 s with
      | (month, '-' :: s) => do
          let (day, s) ← twoDigits (daysIn (numeral 10 [a, b, c, d]) month) s
          if month = 0 || day = 0 then none else some s
      | _ => none
  | _ => none

def afterTime? (s : List Char) : Option (List Char) := do
  match ← twoDigits 23 s with
  | (_, ':' :: s) =>
      match ← twoDigits 59 s with
      | (_, ':' :: s) => do
          let (_, s) ← twoDigits 60 s
          match s with
          | '.' :: s =>
              if (s.takeWhile Char.isDigit).isEmpty then none else some (s.dropWhile Char.isDigit)
          | s => some s
      | _ => none
  | _ => none

def isOffset : List Char → Bool
  | [] => true
  | ['Z'] => true
  | ['z'] => true
  | sign :: s =>
      (sign == '+' || sign == '-') &&
        match twoDigits 23 s with
        | some (_, ':' :: s) =>
            match twoDigits 59 s with
            | some (_, []) => true
            | _ => false
        | _ => false

def isTimeWithOffset (s : List Char) : Bool :=
  match afterTime? s with
  | some rest => isOffset rest
  | none => false

def isDatetime (s : List Char) : Bool :=
  match afterDate? s with
  | some [] => true
  | some (mark :: s) => (mark == 'T' || mark == 't' || mark == ' ') && isTimeWithOffset s
  | none => afterTime? s == some []

def isScalarPart (c : Char) : Bool :=
  c.isAlphanum || c == '_' || c == '+' || c == '-' || c == '.' || c == ':'

/-- The characters of a scalar; a space between a date and a digit is one of them. -/
def takeScalar (s : List Char) : List Char × List Char :=
  let first := s.takeWhile isScalarPart
  match s.dropWhile isScalarPart with
  | ' ' :: rest =>
      if afterDate? first = some [] && rest.head?.any Char.isDigit then
        (first ++ ' ' :: rest.takeWhile isScalarPart, rest.dropWhile isScalarPart)
      else (first, ' ' :: rest)
  | rest => (first, rest)

def ofScalar? (s : List Char) : Option Value :=
  if s = "true".toList then some (.boolean true)
  else if s = "false".toList then some (.boolean false)
  else if isFloat s then some (.float (String.ofList s))
  else if isDatetime s then some (.datetime (String.ofList s))
  else integer? s

end SourceBundle.Toml
