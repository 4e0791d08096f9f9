/- # Sets of characters

A set of characters is a table of ranges of code points, as the properties of the Unicode standard
are published.
-/

namespace BytecodeVm

/-- A set of characters, as closed ranges of code points in ascending order. -/
structure CharSet where
  ranges : List (Nat × Nat)

/-- Whether a character lies in one of the ranges. -/
def CharSet.contains (set : CharSet) (c : Char) : Bool :=
  set.ranges.any fun (first, last) => decide (first ≤ c.toNat) && decide (c.toNat ≤ last)

end BytecodeVm
