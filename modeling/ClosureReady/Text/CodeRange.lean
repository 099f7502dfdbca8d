/-!
Sets of characters written as ranges of code points.
-/

set_option autoImplicit false
set_option relaxedAutoImplicit false

namespace ClosureReady.Text

/-- The code points from the first to the second number, both included. -/
abbrev CodeRange := Nat × Nat

/-- Whether some range of the table holds the character. -/
def inRanges (ranges : List CodeRange) (c : Char) : Bool :=
  ranges.any fun r => decide (r.1 ≤ c.toNat) && decide (c.toNat ≤ r.2)

end ClosureReady.Text
