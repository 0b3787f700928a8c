import ComplexCalc.Double.Parts

/-! The double nearest to a ratio of two naturals, a half going to the even mantissa. -/

namespace ComplexCalc.Double

/-- The integer nearest to `num / den`, of two equally near ones the even. -/
def nearestDiv (num den : Nat) : Nat :=
  let q := num / den
  match compare (2 * (num % den)) den with
  | .lt => q
  | .eq => q + q % 2
  | .gt => q + 1

def binade (num den : Nat) : Int :=
  let e : Int := num.log2 - den.log2
  if den <<< e.toNat ≤ num <<< (-e).toNat then e else e - 1

/-- The double nearest to `num / den`. Its last place is 52 bits below the leading bit, though never
below that of the subnormals. -/
def ofRatio (num den : Nat) : Float :=
  if num = 0 then zero
  else
    let place := max (-1074) (binade num den - 52)
    ofParts (nearestDiv (num <<< (-place).toNat) (den <<< place.toNat)) place

end ComplexCalc.Double
