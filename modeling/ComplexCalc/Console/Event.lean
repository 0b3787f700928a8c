import ComplexCalc.Error
import ComplexCalc.Expr.Outline

/-! What happens at the console, in order, and the text that each event writes on either stream. -/

namespace ComplexCalc.Console

inductive Event
  | prompt
  | tree (e : Expr)
  | value (z : Number)
  | failure (e : Error)
  | farewell

def escape (code : Nat) : String := "\x1b[" ++ toString code ++ "m"

def styled (on off : Nat) (text : String) : String := escape on ++ text ++ escape off

def red (text : String) : String := styled 31 39 text

def green (text : String) : String := styled 32 39 text

def yellow (text : String) : String := styled 33 39 text

def bold (text : String) : String := styled 1 0 text

def dimmed (text : String) : String := styled 2 0 text

namespace Event

def output : Event → String
  | prompt => green ">" ++ " "
  | tree e => dimmed e.dump
  | value z => green "=" ++ " " ++ bold z.text ++ "\n"
  | failure _ => ""
  | farewell => yellow "exiting..." ++ "\n"

def errors : Event → String
  | failure e => red e.message ++ "\n"
  | _ => ""

def isFailure : Event → Bool
  | failure _ => true
  | _ => false

end Event

end ComplexCalc.Console
