import ComplexCalc.Double.Parts

/-! The length of a right triangle's longest side, rounded once: the sum of the squares and its root
are taken over the integers, so that nothing overflows and no digit is lost before the rounding. -/

namespace ComplexCalc.Double

def nearestSqrt (num den : Nat) : Nat :=
  let s := Nat.sqrt (num / den)
  let half := 2 * s + 1
  match compare (4 * num) (half * half * den) with
  | .lt => s
  | .eq => s + s % 2
  | .gt => s + 1

/-- The double nearest to the square root of `n * 4 ^ e`. The last place is the one 52 bits below
the root's leading bit, though never below that of the subnormals. -/
def ofSquare (n : Nat) (e : Int) : Float :=
  let place : Int := max (-1074) (e + (Nat.sqrt n).log2 - 52)
  ofParts (nearestSqrt (n <<< (2 * (e - place).toNat)) (1 <<< (2 * (place - e).toNat))) place

def hypotenuse (x y : Float) : Float :=
  if x.isInf || y.isInf then infinity
  else if x.isNaN || y.isNaN then 0 / 0
  else
    let e := min (exponent x) (exponent y)
    let a := mantissa x <<< (exponent x - e).toNat
    let b := mantissa y <<< (exponent y - e).toNat
    ofSquare (a * a + b * b) e

end ComplexCalc.Double
