import ComplexCalc.Proofs.Evaluation.Progress
import ComplexCalc.Proofs.Session.WellFormed

/-! In a session that lines lead to, a tree all of whose names come to something has a value. -/

namespace ComplexCalc

theorem Functions.WellFormed.byArity {fs : Functions} (h : fs.WellFormed) : fs.ByArity :=
  fun name k f hf => (h.overloads name k f hf).arity

namespace Session

/-- A well resolved tree never fails, whatever the numbers are: with any bound on open calls it has
a value or too many calls are open, and if some bound is enough for it then it has a value. -/
theorem value_of_wellResolved {s : Session} (hs : s.Reachable) {tree : Expr}
    (h : tree.WellResolved s.vars s.functions) :
    (∀ depth e, tree.evalWithin depth s.environment ≠ .error (.failed e)) ∧
    (∀ e, tree.eval s.environment ≠ .error (.failed e)) ∧
    ((∃ depth, tree.evalWithin depth s.environment ≠ .error .tooDeep) →
      ∃ z, tree.eval s.environment = .ok z) := by
  have hevalWithin := h.evalWithin hs.wellFormed.functions.byArity
  have hfailed (depth : Nat) (e : EvalError) :
      tree.evalWithin depth s.environment ≠ .error (.failed e) := by
    intro heq
    rcases hevalWithin depth with htooDeep | ⟨z, hz⟩
    · cases htooDeep.symm.trans heq
    · cases hz.symm.trans heq
  refine ⟨hfailed, hfailed _, fun ⟨depth, hdepth⟩ => ?_⟩
  have hends : tree.eval s.environment ≠ .error .tooDeep :=
    fun htooDeep => hdepth (Expr.eval_eq_tooDeep_iff.1 htooDeep depth)
  exact (hevalWithin _).resolve_left hends

def logarithms : Session := (start false).finish ["b = 0", "g(x) = log(x, b)", "f(y) = g(y) / b"]

theorem value_of_nested_logarithm :
    logarithms.Reachable ∧
    (Expr.call "f" [.number .zero]).WellResolved logarithms.vars logarithms.functions ∧
    (∃ depth, (Expr.call "f" [.number .zero]).evalWithin depth logarithms.environment ≠
      .error .tooDeep) ∧
    ∃ z, (Expr.call "f" [.number .zero]).eval logarithms.environment = .ok z := by
  have hs : logarithms.Reachable := ⟨false, _, rfl⟩
  have h : (Expr.call "f" [.number .zero]).WellResolved logarithms.vars logarithms.functions :=
    .of_all (by decide +kernel) (by decide +kernel)
  have hdepth : (Expr.call "f" [.number .zero]).evalWithin 2 logarithms.environment ≠
    .error .tooDeep := by decide +kernel
  exact ⟨hs, h, ⟨2, hdepth⟩, (value_of_wellResolved hs h).2.2 ⟨2, hdepth⟩⟩

end Session

end ComplexCalc
