import ComplexCalc.Expr.Basic
import Std.Data.TreeMap

/-! Variables and user functions by name. A name may have one function for each number of
parameters. -/

namespace ComplexCalc

structure UserFunction where
  params : List String
  body : Expr

namespace UserFunction

def arity (f : UserFunction) : Nat := f.params.length

end UserFunction

abbrev Variables := Std.TreeMap String Number

abbrev Functions := Std.TreeMap String (Std.TreeMap Nat UserFunction)

namespace Functions

def overload? (fs : Functions) (name : String) (arity : Nat) : Option UserFunction :=
  fs[name]?.bind (·[arity]?)

def hasName (fs : Functions) (name : String) : Bool := fs.contains name

def define (fs : Functions) (name : String) (f : UserFunction) : Functions :=
  fs.insert name ((fs.getD name ∅).insert f.arity f)

def all (fs : Functions) : List UserFunction := fs.values.flatMap (·.values)

end Functions

end ComplexCalc
