import ComplexCalc.Proofs.Environment.Scope
import ComplexCalc.Proofs.Evaluation.OpenCalls

/-! Evaluation in which a body sees its own parameters and the global variables, and nothing of its
caller. It comes to the same as long as no body uses the name of a parameter that is not its own. -/

namespace ComplexCalc

/-- The value of a tree if at most `depth` calls are open at once and the frame of a call is put
over the global variables, instead of over the scope of its caller. -/
def Expr.evalLexically (vars : Variables) (fs : Functions) :
    (depth : Nat) → Scope → Expr → Except Halt Number
  | 0, s => evalWith (fun _ _ => .error .tooDeep) ⟨s, fs⟩
  | depth + 1, s => evalWith (fun f zs =>
      evalLexically vars fs depth (.frame f.params zs (.globals vars)) f.body) ⟨s, fs⟩

def Node.name? : Node → Option String
  | call name _ => some name
  | number _ | constant _ | builtin _ _ | binary _ => none

namespace Functions

def IsParam (fs : Functions) (param : String) : Prop :=
  ∃ name k f, fs.overload? name k = some f ∧ param ∈ f.params

def Separate (fs : Functions) : Prop := ∀ name k f, fs.overload? name k = some f →
  ∀ name' k', .call name' k' ∈ f.body.nodes → name' ∉ f.params → ¬ fs.IsParam name'

theorem Separate.of_all {fs : Functions} (h : ∀ f ∈ fs.all,
    ∀ name ∈ f.body.nodes.filterMap Node.name?, name ∉ f.params → name ∉ fs.params) :
    fs.Separate := by
  rintro name k f hf name' k' hnode hown ⟨name'', k'', f', hf', hparam⟩
  have hname : name' ∈ f.body.nodes.filterMap Node.name? :=
    List.mem_filterMap.2 ⟨_, hnode, rfl⟩
  refine h f (mem_all_of_overload? hf) name' hname hown ?_
  exact List.mem_flatMap.2 ⟨f', mem_all_of_overload? hf', hparam⟩

end Functions

variable {vars : Variables} {fs : Functions} {e : Expr} {s s' : Scope}

structure Scope.SeenAlike (vars : Variables) (fs : Functions) (s s' : Scope) (e : Expr) : Prop where
  names {name : String} {k : Nat} : .call name k ∈ e.nodes → s.lookup? name = s'.lookup? name
  others {name : String} : ¬ fs.IsParam name → s.lookup? name = vars[name]?

theorem Scope.SeenAlike.of_call (h : SeenAlike vars fs s s' e) (hfs : fs.ByArity)
    (hseparate : fs.Separate) {name : String} {f : UserFunction} {zs : List Number}
    (hf : fs.overload? name zs.length = some f) :
    SeenAlike vars fs (.frame f.params zs s) (.frame f.params zs (.globals vars)) f.body where
  names {name' k'} hnode := by
    by_cases hown : name' ∈ f.params
    · have hlength : zs.length = f.params.length := (hfs name zs.length f hf).symm
      rw [lookup?_frame_of_mem hlength hown, lookup?_frame_of_mem hlength hown]
    · rw [lookup?_frame_of_not_mem hown, lookup?_frame_of_not_mem hown,
        h.others (hseparate name zs.length f hf name' k' hnode hown), lookup?]
  others {name'} hnot := by
    have hown : name' ∉ f.params := fun hown => hnot ⟨name, zs.length, f, hf, hown⟩
    rw [lookup?_frame_of_not_mem hown, h.others hnot]

namespace Comparison

theorem admits_of_lookup
    (h : ∀ {name : String} {k : Nat}, .call name k ∈ e.nodes → s.lookup? name = s'.lookup? name) :
    ∀ node ∈ e.nodes, equal.Admits (fun f k => ∃ name, fs.overload? name k = some f)
      ⟨s, fs⟩ ⟨s', fs⟩ node := by
  refine admits_of_calls (fun name k hnode => ?_) fun f k _ => .inr (.inl rfl)
  cases hz : s'.lookup? name with
  | some z =>
    rw [Environment.resolve_of_bound ((h hnode).trans hz), Environment.resolve_of_bound hz]
    exact .value rfl
  | none =>
    cases hf : fs.overload? name k with
    | some f =>
      rw [Environment.resolve_of_overload ((h hnode).trans hz) hf,
        Environment.resolve_of_overload hz hf]
      exact .overload ⟨name, hf⟩
    | none =>
      rw [Environment.resolve_of_missing ((h hnode).trans hz) hf,
        Environment.resolve_of_missing hz hf]
      exact .missing rfl

end Comparison

namespace Expr

theorem evalLexically_of_seenAlike (hfs : fs.ByArity) (hseparate : fs.Separate) (depth : Nat)
    (h : Scope.SeenAlike vars fs s s' e) :
    e.evalLexically vars fs depth s' = e.evalWithin depth ⟨s, fs⟩ := by
  induction depth generalizing s s' e with
  | zero =>
    rw [evalLexically, evalWithin]
    refine (Comparison.eq_of_results ?_).symm
    exact Comparison.evalWith_results (fun _ _ _ _ _ _ => .error rfl) e
      (Comparison.admits_of_lookup h.names)
  | succ depth ih =>
    rw [evalLexically, evalWithin]
    refine (Comparison.eq_of_results ?_).symm
    refine Comparison.evalWith_results ?_ e (Comparison.admits_of_lookup h.names)
    rintro f k zs zs' ⟨name, hf⟩ hzs
    obtain rfl := Comparison.arguments_ofHalts hzs
    obtain ⟨rfl, -⟩ := hzs
    rw [ih (h.of_call hfs hseparate hf)]
    exact Comparison.results_equal _

/-- If overloads are filed under the number of their parameters, and no body uses the name of a
parameter that is not its own, then it makes no difference that a body sees what its callers have
bound: with any bound on open calls, and from some bound on without one. -/
theorem evalLexically_eq (hfs : fs.ByArity) (hseparate : fs.Separate) (vars : Variables)
    (e : Expr) :
    (∀ depth, e.evalLexically vars fs depth (.globals vars) =
      e.evalWithin depth (.global vars fs)) ∧
    ∀ depth, callLimit fs ≤ depth →
      e.evalLexically vars fs depth (.globals vars) = e.eval (.global vars fs) := by
  have hdepth (depth : Nat) : e.evalLexically vars fs depth (.globals vars) =
      e.evalWithin depth (.global vars fs) :=
    evalLexically_of_seenAlike hfs hseparate depth ⟨fun _ => rfl, fun _ => rfl⟩
  refine ⟨hdepth, fun depth hle => ?_⟩
  rw [hdepth, evalWithin_of_callLimit_le hle]

end Expr

def Functions.scaling : Functions :=
  ((∅ : Functions).define "g" ⟨["y"], .binary .mul (.call "y" []) (.call "k" [])⟩).define
    "f" ⟨["x"], .call "g" [.binary .add (.call "x" []) (.call "k" [])]⟩

theorem Expr.evalLexically_scaling :
    Functions.scaling.ByArity ∧ Functions.scaling.Separate ∧
    (Expr.call "f" [.number .one]).evalLexically ((∅ : Variables).insert "k" .two)
      Functions.scaling 2 (.globals ((∅ : Variables).insert "k" .two)) =
    (Expr.call "f" [.number .one]).evalWithin 2
      (.global ((∅ : Variables).insert "k" .two) Functions.scaling) := by
  have hfs : Functions.scaling.ByArity := (Functions.byArity_empty.define _ _).define _ _
  have hseparate : Functions.scaling.Separate := .of_all (by decide +kernel)
  exact ⟨hfs, hseparate, (evalLexically_eq hfs hseparate _ _).1 2⟩

example : let fs := ((∅ : Functions).define "g" ⟨[], .call "x" []⟩).define "f" ⟨["x"], .call "g" []⟩
    (Expr.call "f" [.number .one]).evalWithin 2 (.global ∅ fs) = .ok .one ∧
    (Expr.call "f" [.number .one]).evalLexically ∅ fs 2 (.globals ∅) =
      .error (.failed (.unresolved "x")) := by decide +kernel

end ComplexCalc
