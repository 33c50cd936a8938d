/-!
# Ranges of characters

A property of characters is given by the ranges of the numbers that have it. Both ends belong to a
range, and the ranges of a list ascend.
-/

namespace PostLisp.Text

def inRanges (ranges : List (Nat × Nat)) (n : Nat) : Bool :=
  ranges.any fun range => range.1 ≤ n && n ≤ range.2

end PostLisp.Text
