import ComplexCalc.Token.Basic

/-! What a line of tokens asks for. The first equals sign decides: after a single token the line is
an assignment, anywhere else a definition of a function, and without one the line is an expression.
-/

namespace ComplexCalc

inductive Line
  | expression (tokens : List Token)
  | assignment (target : Token) (body : List Token)
  | definition (head body : List Token)

namespace Line

def ofTokens (tokens : List Token) : Line :=
  let head := tokens.takeWhile (· != .equals)
  match tokens.dropWhile (· != .equals) with
  | [] => expression tokens
  | _ :: body =>
    match head with
    | [target] => assignment target body
    | _ => definition head body

def names? : List Token → Option (List String)
  | [.ident name] => some [name]
  | .ident name :: .comma :: rest => (names? rest).map (name :: ·)
  | _ => none

def parameters? : List Token → Option (List String)
  | [] => some []
  | tokens => (names? tokens).filter (·.Nodup)

def signature? : List Token → Option (String × List String)
  | .ident name :: .lparen :: rest =>
    if rest.getLast? = some .rparen then (parameters? rest.dropLast).map (name, ·) else none
  | _ => none

end Line

end ComplexCalc
