/-! The sign, mantissa and exponent of a double, and the double that two parts stand for. -/

namespace ComplexCalc.Double

def isNegative (x : Float) : Bool := x.toBits.toNat >>> 63 == 1

def storedExponent (x : Float) : Nat := (x.toBits.toNat >>> 52) % 2048

def leadingBit : Nat := 1 <<< 52

def fraction (x : Float) : Nat := x.toBits.toNat % leadingBit

/-- A finite `x` has the magnitude `mantissa x * 2 ^ exponent x`. -/
def mantissa (x : Float) : Nat :=
  if storedExponent x = 0 then fraction x else leadingBit + fraction x

def exponent (x : Float) : Int := if storedExponent x = 0 then -1074 else storedExponent x - 1075

/-- The double `m * 2 ^ e`, infinite if that is beyond the finite ones. The mantissa has 53 bits
(`2 ^ 53` itself is allowed), or fewer if `e` is the least exponent, `-1074`: the leading bit of a
normal mantissa then adds the one by which its stored exponent exceeds `e + 1074`. -/
def ofParts (m : Nat) (e : Int) : Float :=
  Float.ofBits (UInt64.ofNat (min ((e + 1074).toNat * leadingBit + m) (2047 * leadingBit)))

def zero : Float := ofParts 0 (-1074)

def infinity : Float := Float.ofBits (UInt64.ofNat (2047 * leadingBit))

end ComplexCalc.Double
