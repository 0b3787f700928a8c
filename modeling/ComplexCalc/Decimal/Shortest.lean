import ComplexCalc.Decimal.Literal

/-! The text of a double: the fewest digits that read back to the same double, never with an
exponent. -/

namespace ComplexCalc.Decimal

def positional (d : Nat) (scale : Int) : Literal :=
  let digits := Nat.toDigits 10 d
  if 0 ≤ scale then ⟨digits ++ List.replicate scale.toNat '0', none, none⟩
  else
    let places := scale.natAbs
    let digits := digits.leftpad (places + 1) '0'
    let whole := digits.take (digits.length - places)
    match ((digits.drop (digits.length - places)).reverse.dropWhile (· = '0')).reverse with
    | [] => ⟨whole, none, none⟩
    | fraction => ⟨whole, some fraction, none⟩

def decade (num den : Nat) : Int :=
  if den ≤ num then (Nat.toDigits 10 (num / den)).length - 1
  else
    let k := (Nat.toDigits 10 (den / num)).length
    if den ≤ num * tenPow (k - 1) then 1 - (k : Int) else -(k : Int)

/-- The multiples of `10 ^ scale` on both sides of `num / den`, the nearer one first and of two
equally near ones the larger. -/
def neighbours (num den : Nat) (scale : Int) : List Literal :=
  let num := num * tenPow (-scale).toNat
  let den := den * tenPow scale.toNat
  let below := positional (num / den) scale
  let above := positional (num / den + 1) scale
  if 2 * (num % den) < den then [below, above] else [above, below]

def expansion (m : Nat) (e : Int) : Literal :=
  if 0 ≤ e then positional (m <<< e.toNat) 0
  else positional (m * tenPow e.natAbs >>> e.natAbs) e

/-- The shortest literal of a finite, nonnegative double. A literal with `n` digits denotes a
multiple of `10 ^ (decade - n + 1)`; if any of them reads back, so does a neighbour of `x`, and
seventeen digits are always enough. -/
def shortest (x : Float) : Literal :=
  let m := Double.mantissa x
  let e := Double.exponent x
  let num := m <<< e.toNat
  let den := 1 <<< (-e).toNat
  let found := (List.range 17).findSome? fun (n : Nat) =>
    (neighbours num den (decade num den - n)).find? fun l => l.value = x
  found.getD (expansion m e)

def text (x : Float) : String :=
  if x.isNaN then "NaN"
  else
    let sign := if Double.isNegative x then "-" else ""
    let magnitude := if x.isInf then "inf" else String.ofList (shortest x.abs).chars
    sign ++ magnitude

end ComplexCalc.Decimal
