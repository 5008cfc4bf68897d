/-!
# `Text/CodeRange.lean` — classes of characters as ranges

A class of characters is a list of closed ranges of code points. In a table the ranges ascend and
stand apart, so that it can be compared with its source line by line.
-/

set_option autoImplicit false

namespace GeneticRepair.Text

/-- The first and the last code point of a range. -/
abbrev CodeRange := Nat × Nat

/-- Whether the character lies in one of the ranges. -/
def inRanges (ranges : List CodeRange) (c : Char) : Bool :=
  ranges.any fun range => range.1 ≤ c.toNat && c.toNat ≤ range.2

end GeneticRepair.Text
