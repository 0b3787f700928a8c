import ComplexCalc.Expr.Basic
import ComplexCalc.Number.Text

/-! The outline of a tree: a line for each node, its children below it and one level further in. -/

namespace ComplexCalc.Expr

mutual

def outline (depth : Nat) : Expr → List (Nat × String)
  | number z => [(depth, z.text)]
  | constant c => [(depth, c.name)]
  | call name args => (depth, name) :: outlines (depth + 1) args
  | builtin f args => (depth, f.name) :: outlines (depth + 1) args
  | binary o lhs rhs => (depth, o.symbol) :: (outline (depth + 1) lhs ++ outline (depth + 1) rhs)

def outlines (depth : Nat) : List Expr → List (Nat × String)
  | [] => []
  | e :: es => outline depth e ++ outlines depth es

end

def indent (depth : Nat) : String := String.ofList (List.replicate (2 * depth) ' ')

def dump (e : Expr) : String :=
  String.join ((e.outline 0).map fun line => indent line.1 ++ line.2 ++ "\n")

end ComplexCalc.Expr
