import ComplexCalc.Expr.Basic

/-! The nodes of a tree without their children. Of a call only the name and the number of arguments
are left. -/

namespace ComplexCalc

inductive Node
  | number (z : Number)
  | constant (c : Constant)
  | call (name : String) (arity : Nat)
  | builtin (f : Builtin) (arity : Nat)
  | binary (o : Operator)

namespace Expr

mutual

def nodes : Expr → List Node
  | number z => [.number z]
  | constant c => [.constant c]
  | call name args => .call name args.length :: nodesAll args
  | builtin f args => .builtin f args.length :: nodesAll args
  | binary o lhs rhs => .binary o :: (nodes lhs ++ nodes rhs)

def nodesAll : List Expr → List Node
  | [] => []
  | e :: es => nodes e ++ nodesAll es

end

end Expr

end ComplexCalc
