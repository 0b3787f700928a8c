import ComplexCalc.Decimal.Shortest
import ComplexCalc.Number.Basic

/-! The text of a number: `a`, `bi`, `a + bi` or `a - bi`, by which of its parts are zero. -/

namespace ComplexCalc.Number

/-- A negative zero as real part is written as zero; the imaginary unit directly follows its
coefficient, whose sign becomes the operator if there are two terms. -/
def text (z : Number) : String :=
  let re := if z.re == 0 then 0 else z.re
  if z.im == 0 then Decimal.text re
  else if re == 0 then Decimal.text z.im ++ "i"
  else if z.im < 0 then Decimal.text re ++ " - " ++ Decimal.text (-z.im) ++ "i"
  else Decimal.text re ++ " + " ++ Decimal.text z.im ++ "i"

end ComplexCalc.Number
