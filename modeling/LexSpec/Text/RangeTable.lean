/-! # Tables of code point ranges

A property of characters is given by the ranges of code points that have it, both ends included.
-/

namespace LexSpec

/-- Ranges of code points, each by its first and its last. -/
abbrev RangeTable := List (Nat × Nat)

/-- Whether a code point lies in one of the ranges. -/
def RangeTable.contains (table : RangeTable) (code : Nat) : Bool :=
  table.any fun range => range.1 ≤ code && code ≤ range.2

end LexSpec
