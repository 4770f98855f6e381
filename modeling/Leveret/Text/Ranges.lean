/-!
# Code point ranges

A class of characters as a list of closed ranges of code points.
-/

namespace Leveret.Text

abbrev Ranges := List (Nat × Nat)

def Ranges.contains (ranges : Ranges) (c : Char) : Bool :=
  ranges.any fun (low, high) => low ≤ c.toNat && c.toNat ≤ high

end Leveret.Text
