import ComplexCalc.Proofs.Evaluation.Agreement

/-! A chain of frames over the global variables does what one map of variables would do. -/

namespace ComplexCalc

def Variables.override (vars : Variables) : List (String × Number) → Variables
  | [] => vars
  | (name, z) :: bindings => (vars.override bindings).insert name z

/-- One map for a chain of frames: each frame overrides what the frames under it bind. -/
def Scope.flatten : Scope → Variables
  | globals vars => vars
  | frame params args caller => caller.flatten.override (params.zip args)

theorem Variables.getElem?_override (vars : Variables) (bindings : List (String × Number))
    (name : String) : (vars.override bindings)[name]? = (bindings.lookup name).or vars[name]? := by
  induction bindings with
  | nil => rfl
  | cons binding bindings ih =>
    obtain ⟨name', z⟩ := binding
    rw [override, Std.TreeMap.getElem?_insert, List.lookup_cons]
    by_cases hname : name = name'
    · subst hname
      simp
    · have hne : ¬ compare name' name = .eq := fun h => hname (Std.compare_eq_iff_eq.1 h).symm
      rw [if_neg hne, ih, beq_false_of_ne hname]

theorem Scope.getElem?_flatten (s : Scope) (name : String) : s.flatten[name]? = s.lookup? name := by
  induction s with
  | globals vars => rfl
  | frame params args caller ih => rw [flatten, Variables.getElem?_override, ih, lookup?]

namespace Expr

theorem evalWithin_congr {s s' : Scope} (h : ∀ name, s.lookup? name = s'.lookup? name)
    (fs : Functions) (depth : Nat) (e : Expr) :
    e.evalWithin depth ⟨s, fs⟩ = e.evalWithin depth ⟨s', fs⟩ := by
  have hs : Comparison.equal.Scopes (fun _ _ => True) s s' := by
    intro name k _
    rw [h name]
    cases s'.lookup? name with
    | none => exact .none
    | some z => exact .some rfl
  exact Comparison.eq_of_results
    ((Comparison.tables_self (fun _ => rfl) fs).results hs (fun _ _ _ => trivial) depth)

/-- A tree has the same value, or fails the same way, in a chain of frames and in the one map of
variables that the chain amounts to: with any bound on open calls, and if there is no bound. -/
theorem eval_flatten (fs : Functions) (s : Scope) (e : Expr) :
    (∀ name, s.flatten[name]? = s.lookup? name) ∧
    (∀ depth, e.evalWithin depth ⟨s, fs⟩ = e.evalWithin depth (.global s.flatten fs)) ∧
    e.eval ⟨s, fs⟩ = e.eval (.global s.flatten fs) := by
  have hlookup (name : String) : s.lookup? name = (Scope.globals s.flatten).lookup? name :=
    (s.getElem?_flatten name).symm
  refine ⟨s.getElem?_flatten, fun depth => ?_, ?_⟩
  · exact evalWithin_congr hlookup fs depth e
  · exact evalWithin_congr hlookup fs (callLimit fs) e

end Expr

end ComplexCalc
