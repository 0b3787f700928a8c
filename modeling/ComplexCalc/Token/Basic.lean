import ComplexCalc.Builtin
import ComplexCalc.Constant
import ComplexCalc.Decimal.Shortest
import ComplexCalc.Operator

/-! Tokens, how a word becomes one, and how tokens are printed. -/

namespace ComplexCalc

inductive Token
  | real (x : Float)
  | constant (c : Constant)
  | ident (name : String)
  | builtin (f : Builtin)
  | op (o : Operator)
  | lparen
  | rparen
  | comma
  | equals
  deriving DecidableEq

namespace Token

def ofWord (word : String) : Token :=
  match Builtin.ofName? word with
  | some f => builtin f
  | none =>
    match Constant.ofName? word with
    | some c => constant c
    | none => ident word

def ofSymbol? : Char → Option Token
  | ',' => some comma
  | '=' => some equals
  | '(' => some lparen
  | ')' => some rparen
  | '*' => some (op .mul)
  | '/' => some (op .div)
  | '+' => some (op .add)
  | '-' => some (op .sub)
  | '^' => some (op .pow)
  | _ => none

def isWord : Token → Bool
  | ident _ | builtin _ | constant _ => true
  | _ => false

/-- Whether an operand may end with the token. A word after such a token is a factor. -/
def endsOperand : Token → Bool
  | real _ | constant _ | ident _ | builtin _ | rparen => true
  | _ => false

def text : Token → String
  | real x => Decimal.text x
  | constant c => c.name
  | ident name => name
  | builtin f => f.name
  | op o => o.symbol
  | lparen => "("
  | rparen => ")"
  | comma => ","
  | equals => "="

end Token

end ComplexCalc
