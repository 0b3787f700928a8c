import ComplexCalc.Proofs.Evaluation.Failures
import ComplexCalc.Proofs.Evaluation.Progress

/-! What an error of evaluation tells about the bindings. It is raised at a node of the tree or of a
body that the tree reaches, any number of calls further in, and is true of the global bindings: the
frames of the open calls can only bind more names than are bound globally. -/

namespace ComplexCalc
variable {vars : Variables} {fs : Functions} {tree e : Expr} {s : Scope} {node : Node}
  {name : String} {k depth : Nat} {err : EvalError} {invoke : Invoker}

def Expr.ReachesNode (fs : Functions) (e : Expr) (node : Node) : Prop :=
  node ∈ e.nodes ∨
    ∃ name k f, e.Reaches fs name k ∧ fs.overload? name k = some f ∧ node ∈ f.body.nodes

namespace Expr

theorem reachesNode_call_iff : e.ReachesNode fs (.call name k) ↔ e.Reaches fs name k := by
  constructor
  · rintro (hnode | ⟨name', k', f, hreach, hf, hnode⟩)
    · exact .own hnode
    · exact .body hreach hf hnode
  · intro h
    cases h with
    | own hnode => exact .inl hnode
    | body hreach hf hnode => exact .inr ⟨_, _, _, hreach, hf, hnode⟩

end Expr

/-- What an error says about the global bindings and about the tree that has it for its result. -/
def EvalError.Warranted (vars : Variables) (fs : Functions) (tree : Expr) : EvalError → Prop
  | unresolved name =>
    (∃ k, tree.ReachesNode fs (.call name k)) ∧ name ∉ vars ∧ fs.hasName name = false
  | noOverload name k =>
    tree.ReachesNode fs (.call name k) ∧ name ∉ vars ∧ fs.hasName name = true ∧
      fs.overload? name k = none
  | wrongArity f k => tree.ReachesNode fs (.builtin f k) ∧ ¬ f.Takes k

theorem EvalError.warranted_missing (hnode : tree.ReachesNode fs (.call name k))
    (hname : name ∉ vars) (hoverload : fs.overload? name k = none) :
    (Expr.missing fs name k).Warranted vars fs tree := by
  rw [Expr.missing]
  cases hhas : fs.hasName name with
  | true => exact ⟨hnode, hname, hhas, hoverload⟩
  | false => exact ⟨⟨k, hnode⟩, hname, hhas⟩

namespace Expr

theorem warranted_or_call (h : e.evalWithin depth ⟨s, fs⟩ = .error (.failed err))
    (hnodes : ∀ node ∈ e.nodes, tree.ReachesNode fs node)
    (hglobals : ∀ name ∈ vars, s.Binds name) :
    err.Warranted vars fs tree ∨ ∃ name k f zs, .call name k ∈ e.nodes ∧
      fs.overload? name k = some f ∧ invokeWithin depth ⟨s, fs⟩ f zs = .error (.failed err) := by
  rw [evalWithin_eq] at h
  obtain ⟨node, hnode, hfails⟩ := exists_fails_of_evalWith h
  cases hfails with
  | missing hresolve =>
    obtain ⟨hunbound, hoverload, rfl⟩ := Environment.of_resolve_eq_missing hresolve
    refine .inl (EvalError.warranted_missing (hnodes _ hnode) (fun hname => ?_) hoverload)
    have hbinds : s.Binds _ := hglobals _ hname
    rw [Scope.Binds, hunbound] at hbinds
    cases hbinds
  | overload hresolve hinvoke =>
    exact .inr ⟨_, _, _, _, hnode, Environment.overload?_of_resolve hresolve, hinvoke⟩
  | wrongArity htakes => exact .inl ⟨hnodes _ hnode, htakes⟩

theorem warranted_of_evalWithin (h : e.evalWithin depth ⟨s, fs⟩ = .error (.failed err))
    (hnodes : ∀ node ∈ e.nodes, tree.ReachesNode fs node)
    (hglobals : ∀ name ∈ vars, s.Binds name) : err.Warranted vars fs tree := by
  induction depth generalizing s e with
  | zero =>
    rcases warranted_or_call h hnodes hglobals with hwarranted | ⟨_, _, _, _, _, _, hinvoke⟩
    · exact hwarranted
    · cases hinvoke
  | succ depth ih =>
    rcases warranted_or_call h hnodes hglobals with
      hwarranted | ⟨name, k, f, zs, hcall, hf, hinvoke⟩
    · exact hwarranted
    · have hreach : tree.Reaches fs name k := reachesNode_call_iff.1 (hnodes _ hcall)
      refine ih hinvoke (fun node hnode => .inr ⟨name, k, f, hreach, hf, hnode⟩) ?_
      intro name' hname'
      exact (hglobals name' hname').frame f.params zs

/-- An error tells the truth about the global bindings, wherever it was raised. A name that is said
to be unresolved is called by the tree or by a body that it reaches, and is neither a variable nor a
function; one that is said to lack an overload is called there with so many arguments, and is no
variable but a function without that overload; and a builtin function that is said to be called with
a wrong number of arguments stands there with so many, and does not take them. -/
theorem eval_error_warranted (vars : Variables) (fs : Functions) (tree : Expr) {err : EvalError}
    (h : tree.eval (.global vars fs) = .error (.failed err)) : err.Warranted vars fs tree := by
  refine warranted_of_evalWithin h (fun node hnode => .inl hnode) fun name hname => ?_
  rw [Scope.Binds, Scope.lookup?, ← Std.TreeMap.mem_iff_isSome_getElem?]
  exact hname

def misdirected : Functions :=
  (((∅ : Functions).define "h" ⟨["x"], .call "x" []⟩).define
    "g" ⟨["y"], .builtin .sin [.call "h" [.call "y" [], .call "z" []]]⟩).define
    "f" ⟨["z"], .binary .add (.call "g" [.call "z" []]) (.number .one)⟩

theorem eval_error_warranted_two_calls_in :
    (Expr.call "f" [.number .one]).eval (.global ∅ misdirected) =
      .error (.failed (.noOverload "h" 2)) ∧
    (EvalError.noOverload "h" 2).Warranted ∅ misdirected (.call "f" [.number .one]) := by
  have h : (Expr.call "f" [.number .one]).eval (.global ∅ misdirected) =
      .error (.failed (.noOverload "h" 2)) := by decide +kernel
  exact ⟨h, eval_error_warranted ∅ misdirected _ h⟩

end Expr

end ComplexCalc
