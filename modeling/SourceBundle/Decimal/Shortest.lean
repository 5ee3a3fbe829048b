/-!
Shortest decimals. A quotient `n / 2 ^ q` whose numerator has at most fifty-three bits is a binary
floating point number; it is written with the fewest decimal places that no other such number
shares, and of the candidates with so many places the nearest one.
-/

namespace SourceBundle.Decimal

def precision : Nat := 53

/-- The numbers nearer to one number than to its neighbours, as the numerators of the two ends over
a common denominator. The ends belong to it when the numerator is even. -/
structure Interval where
  low : Nat
  high : Nat
  denominator : Nat
  closed : Bool
  deriving DecidableEq, Repr

/-- The interval of `n / 2 ^ q`. Below a power of two the numbers lie twice as close. -/
def Interval.around (n q : Nat) : Interval :=
  let shift := precision - 1 - n.log2
  let m := n * Nat.pow 2 shift
  { low := if m = Nat.pow 2 (precision - 1) then 4 * m - 1 else 4 * m - 2
    high := 4 * m + 2
    denominator := Nat.pow 2 (q + shift + 2)
    closed := m % 2 = 0 }

def Interval.contains (i : Interval) (digits places : Nat) : Bool :=
  let x := digits * i.denominator
  let low := i.low * Nat.pow 10 places
  let high := i.high * Nat.pow 10 places
  if i.closed then low ≤ x && x ≤ high else low < x && x < high

def nearest? (i : Interval) (n q places : Nat) : Option Nat :=
  let scaled := n * Nat.pow 10 places
  let below := scaled / Nat.pow 2 q
  let above := below + 1
  match i.contains below places, i.contains above places with
  | false, false => none
  | true, false => some below
  | false, true => some above
  | true, true => some (if 2 * (scaled % Nat.pow 2 q) ≤ Nat.pow 2 q then below else above)

def shortestFrom (i : Interval) (n q : Nat) : Nat → Nat → Nat × Nat
  | 0, places => (n * Nat.pow 10 places / Nat.pow 2 q, places)
  | bound + 1, places =>
      match nearest? i n q places with
      | some digits => (digits, places)
      | none => shortestFrom i n q bound (places + 1)

def text (digits places : Nat) : String :=
  if places = 0 then toString digits
  else
    let fraction := (toString (digits % Nat.pow 10 places)).toList
    toString (digits / Nat.pow 10 places) ++ "." ++
      String.ofList (List.replicate (places - fraction.length) '0' ++ fraction)

def shortest (n q : Nat) : String :=
  match shortestFrom (.around n q) n q q 0 with
  | (digits, places) => text digits places

end SourceBundle.Decimal
