import ComplexCalc.Proofs.Evaluation.Simulation
import ComplexCalc.Proofs.Except

/-! Where a failure comes from. Failures are passed up unchanged, so a tree fails only if one of its
nodes fails: a name that comes to nothing, a function with a wrong number of arguments, or a call
whose body fails. -/

namespace ComplexCalc
variable {invoke : Invoker} {env : Environment} {halt : Halt}

/-- How a node fails, whatever stands below it. -/
inductive Node.Fails (invoke : Invoker) (env : Environment) : Halt → Node → Prop
  | missing {name : String} {k : Nat} {e : EvalError} : env.resolve name k = .missing e →
    Fails invoke env (.failed e) (.call name k)
  | overload {name : String} {k : Nat} {f : UserFunction} {zs : List Number} {halt : Halt} :
    env.resolve name k = .overload f → invoke f zs = .error halt →
    Fails invoke env halt (.call name k)
  | wrongArity {f : Builtin} {k : Nat} : ¬ f.Takes k →
    Fails invoke env (.failed (.wrongArity f k)) (.builtin f k)

namespace Expr

theorem length_of_evalAll {es : List Expr} {zs : List Number}
    (h : evalAll invoke env es = .ok zs) : zs.length = es.length := by
  induction es generalizing zs with
  | nil =>
    rw [evalAll] at h
    cases h
    rfl
  | cons e es ih =>
    rw [evalAll] at h
    obtain ⟨z, -, hrest⟩ := bind_eq_ok_iff.1 h
    obtain ⟨zs', hzs', hpure⟩ := bind_eq_ok_iff.1 hrest
    cases hpure
    exact congrArg (· + 1) (ih hzs')

mutual

theorem exists_fails_of_evalWith : ∀ {e : Expr}, e.evalWith invoke env = .error halt →
    ∃ node ∈ e.nodes, node.Fails invoke env halt
  | .number z, h => by
    rw [evalWith] at h
    cases h
  | .constant c, h => by
    rw [evalWith] at h
    cases h
  | .call name args, h => by
    rw [evalWith_call] at h
    cases hname : env.resolve name args.length with
    | value z =>
      rw [hname] at h
      cases h
    | missing e =>
      rw [hname] at h
      cases h
      exact ⟨_, List.mem_cons_self, .missing hname⟩
    | overload f =>
      rw [hname] at h
      rcases bind_eq_error_iff.1 h with hargs | ⟨zs, -, hinvoke⟩
      · obtain ⟨node, hnode, hfails⟩ := exists_fails_of_evalAll hargs
        exact ⟨node, List.mem_cons_of_mem _ hnode, hfails⟩
      · exact ⟨_, List.mem_cons_self, .overload hname hinvoke⟩
  | .builtin f args, h => by
    rw [evalWith] at h
    rcases bind_eq_error_iff.1 h with hargs | ⟨zs, hzs, hvalue⟩
    · obtain ⟨node, hnode, hfails⟩ := exists_fails_of_evalAll hargs
      exact ⟨node, List.mem_cons_of_mem _ hnode, hfails⟩
    · have htakes : (f.value? zs).isSome = true ↔ f.Takes args.length := by
        rw [Builtin.value?_isSome_iff, length_of_evalAll hzs]
      cases hz : f.value? zs with
      | some z =>
        rw [hz] at hvalue
        cases hvalue
      | none =>
        rw [hz, length_of_evalAll hzs] at hvalue
        cases hvalue
        rw [hz] at htakes
        exact ⟨_, List.mem_cons_self, .wrongArity fun h => nomatch htakes.2 h⟩
  | .binary o lhs rhs, h => by
    rw [evalWith] at h
    rcases bind_eq_error_iff.1 h with hl | ⟨z, -, hrest⟩
    · obtain ⟨node, hnode, hfails⟩ := exists_fails_of_evalWith hl
      exact ⟨node, List.mem_cons_of_mem _ (List.mem_append_left _ hnode), hfails⟩
    · rcases bind_eq_error_iff.1 hrest with hr | ⟨w, -, hpure⟩
      · obtain ⟨node, hnode, hfails⟩ := exists_fails_of_evalWith hr
        exact ⟨node, List.mem_cons_of_mem _ (List.mem_append_right _ hnode), hfails⟩
      · cases hpure

theorem exists_fails_of_evalAll : ∀ {es : List Expr}, evalAll invoke env es = .error halt →
    ∃ node ∈ nodesAll es, node.Fails invoke env halt
  | [], h => by
    rw [evalAll] at h
    cases h
  | e :: es, h => by
    rw [evalAll] at h
    rcases bind_eq_error_iff.1 h with he | ⟨z, -, hrest⟩
    · obtain ⟨node, hnode, hfails⟩ := exists_fails_of_evalWith he
      exact ⟨node, List.mem_append_left _ hnode, hfails⟩
    · rcases bind_eq_error_iff.1 hrest with hes | ⟨zs, -, hpure⟩
      · obtain ⟨node, hnode, hfails⟩ := exists_fails_of_evalAll hes
        exact ⟨node, List.mem_append_right _ hnode, hfails⟩
      · cases hpure

end

end Expr

end ComplexCalc
