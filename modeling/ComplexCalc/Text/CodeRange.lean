/-! Inclusive ranges of code points, the form in which classes of characters are tabulated. -/

namespace ComplexCalc.Text

def inRanges (ranges : List (Nat × Nat)) (c : Char) : Bool :=
  ranges.any fun r => r.1 ≤ c.toNat && c.toNat ≤ r.2

end ComplexCalc.Text
