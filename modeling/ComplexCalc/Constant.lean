import ComplexCalc.Number.Basic

/-! The named constants. -/

namespace ComplexCalc

inductive Constant
  | pi
  | e
  | i
  deriving DecidableEq

namespace Constant

def names : List (String × Constant) := [("pi", pi), ("π", pi), ("e", e), ("i", i)]

def ofName? (name : String) : Option Constant := names.lookup name

def name : Constant → String
  | pi => "pi"
  | e => "e"
  | i => "i"

def value : Constant → Number
  | pi => Number.real 3.141592653589793
  | e => Number.real 2.718281828459045
  | i => Number.unit

end Constant

end ComplexCalc
