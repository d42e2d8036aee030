/-!
Sets of characters given by ranges of code points.
-/
namespace RegisterMachine.Text

/-- Inclusive ranges of code points, in increasing order. -/
structure CharSet where
  ranges : List (Nat × Nat)

def CharSet.contains (set : CharSet) (c : Char) : Bool :=
  set.ranges.any fun range => range.1 ≤ c.toNat && c.toNat ≤ range.2

end RegisterMachine.Text
