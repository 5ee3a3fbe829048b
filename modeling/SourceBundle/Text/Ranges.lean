/-!
Sets of code points, given by ranges.
-/

namespace SourceBundle.Text

def inRanges (ranges : List (Nat × Nat)) (n : Nat) : Bool :=
  ranges.any fun range => range.1 ≤ n && n ≤ range.2

end SourceBundle.Text
