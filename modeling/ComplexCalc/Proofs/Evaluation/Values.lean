import ComplexCalc.Evaluation

/-! The values of numbers, constants and operators, however many calls may be open. -/

namespace ComplexCalc.Expr
variable {env : Environment} {lhs rhs : Expr} {z w : Number}

theorem eval_eq_evalWith (env : Environment) :
    ∃ invoke, ∀ e : Expr, e.eval env = e.evalWith invoke env := by
  cases h : callLimit env.functions with
  | zero => exact ⟨_, fun e => by rw [eval, h, evalWithin]⟩
  | succ depth => exact ⟨_, fun e => by rw [eval, h, evalWithin]⟩

theorem eval_number (env : Environment) (z : Number) : (number z).eval env = .ok z := by
  obtain ⟨invoke, h⟩ := eval_eq_evalWith env
  rw [h, evalWith]

theorem eval_constant (env : Environment) (c : Constant) : (constant c).eval env = .ok c.value := by
  obtain ⟨invoke, h⟩ := eval_eq_evalWith env
  rw [h, evalWith]

theorem eval_binary (o : Operator) (hl : lhs.eval env = .ok z) (hr : rhs.eval env = .ok w) :
    (binary o lhs rhs).eval env = .ok (o.apply z w) := by
  obtain ⟨invoke, h⟩ := eval_eq_evalWith env
  rw [h] at hl hr ⊢
  rw [evalWith, hl, hr]
  rfl

end ComplexCalc.Expr
