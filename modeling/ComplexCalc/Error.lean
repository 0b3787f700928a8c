import ComplexCalc.Token.Basic

/-! What can go wrong with a line, and how it is reported. -/

namespace ComplexCalc

inductive LexError
  | unexpectedChar (c : Char)
  deriving DecidableEq

inductive SyntaxFault
  | unbalanced
  | noTokens
  | invalidInput
  | noOperators
  | missingOperand
  | assignment
  | definition
  deriving DecidableEq

/-- A fault in a list of tokens. The context is the part at fault if diagnostics are on, and is
empty otherwise. -/
structure SyntaxError where
  fault : SyntaxFault
  context : List Token
  deriving DecidableEq

inductive EvalError
  | unresolved (name : String)
  | noOverload (name : String) (arity : Nat)
  | wrongArity (f : Builtin) (arity : Nat)
  deriving DecidableEq

/-- Any failure of a line. `endless` is the recursion of a function that never returns. -/
inductive Error
  | lex (e : LexError)
  | parse (e : SyntaxError)
  | eval (e : EvalError)
  | endless
  deriving DecidableEq

def LexError.message : LexError → String
  | unexpectedChar c => "unexpected character `" ++ String.singleton c ++ "`"

def SyntaxFault.message : SyntaxFault → String
  | unbalanced => "unbalanced parentheses"
  | noTokens => "no tokens"
  | invalidInput => "invalid input"
  | noOperators => "no operators found"
  | missingOperand => "operator is missing its left operand"
  | assignment => "malformed assignment"
  | definition => "malformed function definition"

def SyntaxError.message (e : SyntaxError) : String :=
  match e.context with
  | [] => e.fault.message
  | tokens => e.fault.message ++ " in `" ++ " ".intercalate (tokens.map Token.text) ++ "`"

def SyntaxError.blank (e : SyntaxError) : SyntaxError := { e with context := [] }

def EvalError.message : EvalError → String
  | unresolved name => "unresolved identifier `" ++ name ++ "`"
  | noOverload name arity =>
    "no overload of `" ++ name ++ "` takes " ++ toString arity ++ " argument(s)"
  | wrongArity f arity => "`" ++ f.name ++ "` does not take " ++ toString arity ++ " argument(s)"

def Error.message : Error → String
  | lex e => "lexical error: " ++ e.message
  | parse e => "syntax error: " ++ e.message
  | eval e => "evaluation error: " ++ e.message
  | endless => "evaluation error: endless recursion"

end ComplexCalc
