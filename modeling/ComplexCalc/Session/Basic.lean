import ComplexCalc.Evaluation
import ComplexCalc.Expr.OfTokens
import ComplexCalc.Session.Line
import ComplexCalc.Token.Lexer

/-! A session keeps the variables and functions that its lines bind. A line binds something only if
all of it succeeds. -/

namespace ComplexCalc

def Halt.error : Halt → Error
  | failed e => .eval e
  | tooDeep => .endless

structure Session where
  vars : Variables
  functions : Functions
  diagnostics : Bool

inductive Reply
  | value (z : Number)
  | defined

namespace Session

def start (diagnostics : Bool) : Session := ⟨∅, ∅, diagnostics⟩

def environment (s : Session) : Environment := .global s.vars s.functions

def build (s : Session) (tokens : List Token) : Except Error Expr :=
  (Expr.ofTokens s.diagnostics tokens).mapError .parse

def parse (s : Session) (line : String) : Except Error Expr := do
  let tokens ← (tokenize line).mapError .lex
  s.build tokens

def evaluate (s : Session) (tokens : List Token) : Except Error Number := do
  let e ← s.build tokens
  (e.eval s.environment).mapError Halt.error

def assign (s : Session) (target : Token) (body : List Token) : Except Error (Number × Session) :=
  match target with
  | .ident name => do
    let z ← s.evaluate body
    return (z, { s with vars := s.vars.insert name z })
  | _ => .error (.parse ⟨.assignment, []⟩)

def define (s : Session) (head body : List Token) : Except Error Session :=
  match Line.signature? head with
  | some (name, params) => do
    let body ← s.build body
    return { s with functions := s.functions.define name ⟨params, body⟩ }
  | none => .error (.parse ⟨.definition, []⟩)

def attempt (s : Session) (line : String) : Except Error (Reply × Session) := do
  let tokens ← (tokenize line).mapError .lex
  match Line.ofTokens tokens with
  | .expression tokens =>
    let z ← s.evaluate tokens
    return (.value z, s)
  | .assignment target body =>
    let (z, s) ← s.assign target body
    return (.value z, s)
  | .definition head body =>
    let s ← s.define head body
    return (.defined, s)

/-- The answer to a line and the session after it, which is unchanged if the line fails. -/
def process (s : Session) (line : String) : Except Error Reply × Session :=
  match s.attempt line with
  | .ok (reply, s) => (.ok reply, s)
  | .error e => (.error e, s)

end Session

end ComplexCalc
