import ComplexCalc.Builtin
import ComplexCalc.Constant
import ComplexCalc.Operator

/-! Expression trees. -/

namespace ComplexCalc

inductive Expr
  | number (z : Number)
  | constant (c : Constant)
  /-- A name with its arguments: a variable, or a call of a user's function. -/
  | call (name : String) (args : List Expr)
  | builtin (f : Builtin) (args : List Expr)
  | binary (o : Operator) (lhs rhs : Expr)

end ComplexCalc
