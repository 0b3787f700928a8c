import ComplexCalc.Console.Run
import Mathlib.Data.List.Basic

/-! Lines as they are typed: each ended by a newline, all of them as bytes in UTF-8. The console
reads back the lines, and the arguments of the command line pass a text on as it is. -/

namespace ComplexCalc.Console

def bytes (text : String) : List UInt8 := text.toUTF8.data.toList

namespace Options
variable {o : Options} {arguments : List String}

theorem read?_append (h : "--" ∉ arguments) (o : Options) (rest : List String) :
    o.read? (arguments ++ rest) = (o.read? arguments).bind (·.read? rest) := by
  induction arguments generalizing o with
  | nil => rfl
  | cons text arguments ih =>
    rw [List.mem_cons, not_or] at h
    rw [List.cons_append, read?, read?, if_neg (Ne.symm h.1), if_neg (Ne.symm h.1)]
    cases o.argument? text with
    | none => rfl
    | some o' => exact ih h.2 o'

end Options

end ComplexCalc.Console
