import ComplexCalc.Error
import ComplexCalc.Expr.Basic
import ComplexCalc.Expr.Shape

/-! The tree of a run of tokens, by recursion over the shapes of its parts. With diagnostics on, an
error carries the run that it was found in. -/

namespace ComplexCalc

def SyntaxError.found (diagnostics : Bool) (fault : SyntaxFault) (range : List Token) :
    SyntaxError :=
  ⟨fault, if diagnostics then range else []⟩

namespace Expr

def ofToken? : Token → Option Expr
  | .real x => some (number (.real x))
  | .constant c => some (constant c)
  | .ident name => some (call name [])
  | _ => none

/-- The tree of a run whose parentheses are balanced. The right side of an operator is built before
the left one, so of two errors that of the right side is found. A sign without a left side has zero
there. -/
def ofRange (diagnostics : Bool) (range : List Token) : Except SyntaxError Expr :=
  match _h : Shape.ofTokens range with
  | .empty => .error (.found diagnostics .noTokens range)
  | .group inner => ofRange diagnostics inner
  | .leaf t =>
    match ofToken? t with
    | some e => .ok e
    | none => .error (.found diagnostics .invalidInput range)
  | .call name args => do
    let args ← args.attach.mapM fun ⟨part, _⟩ => ofRange diagnostics part
    return call name args
  | .builtin f args => do
    let args ← args.attach.mapM fun ⟨part, _⟩ => ofRange diagnostics part
    return builtin f args
  | .operation left o right => do
    let rhs ← ofRange diagnostics right
    if left.isEmpty then
      if o.isSign then return binary o (number .zero) rhs
      else throw (.found diagnostics .missingOperand range)
    else
      let lhs ← ofRange diagnostics left
      return binary o lhs rhs
  | .juxtaposition => .error (.found diagnostics .noOperators range)
termination_by range.length
decreasing_by all_goals exact Shape.length_lt_of_mem_parts (by simp_all [Shape.parts])

theorem ofRange_eq (diagnostics : Bool) (range : List Token) :
    ofRange diagnostics range =
      match Shape.ofTokens range with
      | .empty => .error (.found diagnostics .noTokens range)
      | .group inner => ofRange diagnostics inner
      | .leaf t =>
        match ofToken? t with
        | some e => .ok e
        | none => .error (.found diagnostics .invalidInput range)
      | .call name args => do
        let args ← args.mapM (ofRange diagnostics)
        return call name args
      | .builtin f args => do
        let args ← args.mapM (ofRange diagnostics)
        return builtin f args
      | .operation left o right => do
        let rhs ← ofRange diagnostics right
        if left.isEmpty then
          if o.isSign then return binary o (number .zero) rhs
          else throw (.found diagnostics .missingOperand range)
        else
          let lhs ← ofRange diagnostics left
          return binary o lhs rhs
      | .juxtaposition => .error (.found diagnostics .noOperators range) := by
  rw [ofRange]
  split <;> rename_i h <;> simp only [h, List.mapM_subtype, List.unattach_attach]

def ofTokens (diagnostics : Bool) (tokens : List Token) : Except SyntaxError Expr :=
  if Token.parens.balanced tokens then ofRange diagnostics tokens
  else .error (.found diagnostics .unbalanced tokens)

end Expr

end ComplexCalc
