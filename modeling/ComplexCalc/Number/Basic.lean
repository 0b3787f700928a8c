import ComplexCalc.Double.Hypotenuse

/-! Complex numbers in double precision: the four operations, polar form, exponential, logarithm and
powers. Each formula is evaluated as it stands, so a real operand still takes part in the complex
formula with its zero imaginary part. -/

namespace ComplexCalc

structure Number where
  re : Float
  im : Float
  deriving DecidableEq

namespace Number

def real (x : Float) : Number := ⟨x, 0⟩

def zero : Number := real 0

def one : Number := real 1

def two : Number := real 2

def unit : Number := ⟨0, 1⟩

instance : Add Number := ⟨fun z w => ⟨z.re + w.re, z.im + w.im⟩⟩

instance : Sub Number := ⟨fun z w => ⟨z.re - w.re, z.im - w.im⟩⟩

instance : Neg Number := ⟨fun z => ⟨-z.re, -z.im⟩⟩

instance : Mul Number :=
  ⟨fun z w => ⟨z.re * w.re - z.im * w.im, z.re * w.im + z.im * w.re⟩⟩

instance : Div Number where
  div z w :=
    let n := w.re * w.re + w.im * w.im
    ⟨(z.re * w.re + z.im * w.im) / n, (z.im * w.re - z.re * w.im) / n⟩

/-- Numerical equality of both parts: the signs of zeros do not matter, and NaN equals nothing. -/
instance : BEq Number := ⟨fun z w => z.re == w.re && z.im == w.im⟩

def radius (z : Number) : Float := Double.hypotenuse z.re z.im

def angle (z : Number) : Float := Float.atan2 z.im z.re

def ofPolar (r t : Float) : Number := ⟨r * t.cos, r * t.sin⟩

def ln (z : Number) : Number := ⟨z.radius.log, z.angle⟩

/-- The exponential. The real parts for which the polar form would multiply an infinity by a zero or
by an undefined sine have values of their own. -/
def exp (z : Number) : Number :=
  if z.re.isInf && z.re < 0 && !z.im.isFinite then zero
  else if z.re.isInf && z.re > 0 && (z.im == 0 || !z.im.isFinite) then
    ⟨z.re, if z.im.isInf then 0 / 0 else z.im⟩
  else if z.re.isNaN && z.im == 0 then z
  else ofPolar z.re.exp z.im

def complexPow (z w : Number) : Number := if w == zero then one else exp (w * ln z)

/-- Powers that stay on the real line are real powers, so whole results such as `2 ^ 10` are exact:
both operands are real, and the base is not negative or the exponent is whole. -/
def pow (z w : Number) : Number :=
  if z.im == 0 && w.im == 0 && (z.re >= 0 || w.re.floor == w.re) then real (z.re.pow w.re)
  else complexPow z w

end Number

end ComplexCalc
