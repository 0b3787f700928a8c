import ComplexCalc.Number.Elementary

/-! The functions that are always there: their names, and what they do to a list of arguments. -/

namespace ComplexCalc

inductive Builtin
  | sin | cos | tan
  | asin | acos | atan
  | sinh | cosh | tanh
  | asinh | acosh | atanh
  | sqrt | exp | log
  | round | floor | ceil
  deriving DecidableEq

namespace Builtin

def names : List (String × Builtin) :=
  [("sin", sin), ("cos", cos), ("tan", tan), ("asin", asin), ("arcsin", asin), ("acos", acos),
   ("arccos", acos), ("atan", atan), ("arctan", atan), ("sinh", sinh), ("cosh", cosh),
   ("tanh", tanh), ("asinh", asinh), ("acosh", acosh), ("atanh", atanh), ("sqrt", sqrt),
   ("exp", exp), ("log", log), ("round", round), ("floor", floor), ("ceil", ceil)]

def ofName? (name : String) : Option Builtin := names.lookup name

def name : Builtin → String
  | sin => "sin" | cos => "cos" | tan => "tan"
  | asin => "asin" | acos => "acos" | atan => "atan"
  | sinh => "sinh" | cosh => "cosh" | tanh => "tanh"
  | asinh => "asinh" | acosh => "acosh" | atanh => "atanh"
  | sqrt => "sqrt" | exp => "exp" | log => "log"
  | round => "round" | floor => "floor" | ceil => "ceil"

def unary : Builtin → Number → Number
  | sin => Number.sin | cos => Number.cos | tan => Number.tan
  | asin => Number.asin | acos => Number.acos | atan => Number.atan
  | sinh => Number.sinh | cosh => Number.cosh | tanh => Number.tanh
  | asinh => Number.asinh | acosh => Number.acosh | atanh => Number.atanh
  | sqrt => Number.sqrt | exp => Number.exp | log => Number.ln
  | round => Number.round | floor => Number.floor | ceil => Number.ceil

/-- Every function takes one argument; `log` also takes a base as its second. There is no value for
any other number of arguments. -/
def value? : Builtin → List Number → Option Number
  | f, [z] => some (f.unary z)
  | log, [z, base] => some (z.ln / base.ln)
  | _, _ => none

end Builtin

end ComplexCalc
