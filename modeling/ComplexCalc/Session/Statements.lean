import ComplexCalc.Nesting

/-! Texts of several statements. -/

namespace ComplexCalc

def textParens : Brackets Char where
  opens c := c == '('
  closes c := c == ')'

def statements (text : String) : List String :=
  (textParens.split (· == ';') text.toList).map String.ofList

/-- Whether a statement, if it is one at all, binds a variable or a function. -/
def isBinding (statement : String) : Bool := statement.toList.contains '='

end ComplexCalc
