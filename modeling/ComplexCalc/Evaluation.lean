import ComplexCalc.Environment.Scope
import ComplexCalc.Error

/-! The value of a tree. A call jumps to the body of a user's function, so evaluation is by
recursion on the number of calls that may be open at once, and on the tree between two calls. -/

namespace ComplexCalc

inductive Halt
  | failed (e : EvalError)
  | tooDeep
  deriving DecidableEq

namespace Expr

def missing (functions : Functions) (name : String) (arity : Nat) : EvalError :=
  if functions.hasName name then .noOverload name arity else .unresolved name

mutual

/-- The value of a tree, where `invoke` gives the values of calls. A variable hides all functions of
its name, and its arguments are not evaluated. -/
def evalWith (invoke : UserFunction → List Number → Except Halt Number) (env : Environment) :
    Expr → Except Halt Number
  | number z => .ok z
  | constant c => .ok c.value
  | call name args =>
    match env.scope.lookup? name with
    | some z => .ok z
    | none =>
      match env.functions.overload? name args.length with
      | none => .error (.failed (missing env.functions name args.length))
      | some f => do
        let zs ← evalAll invoke env args
        invoke f zs
  | builtin f args => do
    let zs ← evalAll invoke env args
    match f.value? zs with
    | some z => .ok z
    | none => .error (.failed (.wrongArity f zs.length))
  | binary o lhs rhs => do
    let z ← evalWith invoke env lhs
    let w ← evalWith invoke env rhs
    return o.apply z w

def evalAll (invoke : UserFunction → List Number → Except Halt Number) (env : Environment) :
    List Expr → Except Halt (List Number)
  | [] => .ok []
  | e :: es => do
    let z ← evalWith invoke env e
    let zs ← evalAll invoke env es
    return z :: zs

end

def evalWithin : (depth : Nat) → Environment → Expr → Except Halt Number
  | 0, env => evalWith (fun _ _ => .error .tooDeep) env
  | depth + 1, env => evalWith (fun f zs => evalWithin depth (env.enter f zs) f.body) env

/-- The most calls that are ever open at once in an evaluation that ends. What a body does depends
on which names are bound, not on their values, and every call can only bind more names; so of more
open calls than this two are of one overload with the same names bound, and the inner one repeats
the outer for ever. -/
def callLimit (functions : Functions) : Nat :=
  let overloads := functions.all
  let params := overloads.flatMap (·.params)
  overloads.length * (params.length + 1)

def eval (env : Environment) (e : Expr) : Except Halt Number :=
  evalWithin (callLimit env.functions) env e

end Expr

/-- The value of a function at given arguments. Their number is not compared with that of the
parameters. -/
def UserFunction.call (env : Environment) (f : UserFunction) (args : List Number) :
    Except Halt Number :=
  f.body.eval (env.enter f args)

end ComplexCalc
