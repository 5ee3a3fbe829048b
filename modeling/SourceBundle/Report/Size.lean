import SourceBundle.Decimal.Shortest

/-!
Sizes for display, in the greatest binary unit that they reach.
-/

namespace SourceBundle.Report

def units : List String := ["B", "KiB", "MiB", "GiB", "TiB", "PiB", "EiB"]

def unitOf (bytes : Nat) : Nat → List String → Nat × String
  | power, [] => (power, "")
  | power, [unit] => (power, unit)
  | power, unit :: larger =>
      if bytes < Nat.pow 1024 (power + 1) then (power, unit) else unitOf bytes (power + 1) larger

def size (bytes : Nat) : String :=
  match unitOf bytes 0 units with
  | (power, unit) => Decimal.shortest bytes (10 * power) ++ " " ++ unit

end SourceBundle.Report
