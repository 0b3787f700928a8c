import ComplexCalc.Number.Basic

/-! The binary operators. -/

namespace ComplexCalc

inductive Operator
  | add
  | sub
  | mul
  | div
  | pow
  deriving DecidableEq

namespace Operator

def symbol : Operator → String
  | add => "+"
  | sub => "-"
  | mul => "*"
  | div => "/"
  | pow => "^"

def precedence : Operator → Nat
  | add | sub => 0
  | mul | div => 1
  | pow => 2

def isSign : Operator → Bool
  | add | sub => true
  | mul | div | pow => false

def apply : Operator → Number → Number → Number
  | add, z, w => z + w
  | sub, z, w => z - w
  | mul, z, w => z * w
  | div, z, w => z / w
  | pow, z, w => z.pow w

end Operator

end ComplexCalc
