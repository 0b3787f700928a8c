import ComplexCalc.Number.Basic

/-! Square root, circular and hyperbolic functions with their inverses, and rounding. -/

namespace ComplexCalc.Number

/-- The principal square root. On the axes it is exact in one part, and a negative real lies above
or below the cut as the sign of its zero imaginary part says. -/
def sqrt (z : Number) : Number :=
  if z.im == 0 then
    if Double.isNegative z.re then
      let root := (-z.re).sqrt
      ⟨0, if Double.isNegative z.im then -root else root⟩
    else ⟨z.re.sqrt, z.im⟩
  else if z.re == 0 then
    let x := (z.im.abs / 2).sqrt
    ⟨x, if Double.isNegative z.im then -x else x⟩
  else ofPolar z.radius.sqrt (z.angle / 2)

def sin (z : Number) : Number := ⟨z.re.sin * z.im.cosh, z.re.cos * z.im.sinh⟩

def cos (z : Number) : Number := ⟨z.re.cos * z.im.cosh, -z.re.sin * z.im.sinh⟩

def tan (z : Number) : Number :=
  let a := z.re + z.re
  let b := z.im + z.im
  let q := a.cos + b.cosh
  ⟨a.sin / q, b.sinh / q⟩

def sinh (z : Number) : Number := ⟨z.re.sinh * z.im.cos, z.re.cosh * z.im.sin⟩

def cosh (z : Number) : Number := ⟨z.re.cosh * z.im.cos, z.re.sinh * z.im.sin⟩

def tanh (z : Number) : Number :=
  let a := z.re + z.re
  let b := z.im + z.im
  let q := a.cosh + b.cos
  ⟨a.sinh / q, b.sin / q⟩

def asin (z : Number) : Number := -unit * ln (sqrt (one - z * z) + unit * z)

def acos (z : Number) : Number := -unit * ln (unit * sqrt (one - z * z) + z)

def atan (z : Number) : Number :=
  if z == unit then ⟨0, 1 / 0⟩
  else if z == -unit then ⟨0, -1 / 0⟩
  else (ln (one + unit * z) - ln (one - unit * z)) / (two * unit)

def asinh (z : Number) : Number := ln (z + sqrt (one + z * z))

def acosh (z : Number) : Number := two * ln (sqrt ((z + one) / two) + sqrt ((z - one) / two))

def atanh (z : Number) : Number :=
  if z == one then ⟨1 / 0, 0⟩
  else if z == -one then ⟨-1 / 0, 0⟩
  else (ln (one + z) - ln (one - z)) / two

def map (f : Float → Float) (z : Number) : Number := ⟨f z.re, f z.im⟩

def round (z : Number) : Number := z.map Float.round

def floor (z : Number) : Number := z.map Float.floor

def ceil (z : Number) : Number := z.map Float.ceil

end ComplexCalc.Number
