import ComplexCalc.Proofs.Evaluation.OpenCalls

/-! More bindings, of which no variable hides a function that was there before. A tree that has a
value keeps it: every name that its evaluation meets is bound, so none of the new bindings is looked
at. -/

namespace ComplexCalc

/-- Whether tables of variables and functions contain other ones unchanged, and no variable that
they have more is the name of a function of these. -/
structure Enlarged (vars vars' : Variables) (fs fs' : Functions) : Prop where
  values {name : String} {z : Number} : vars[name]? = some z → vars'[name]? = some z
  overloads {name : String} {k : Nat} {f : UserFunction} :
    fs.overload? name k = some f → fs'.overload? name k = some f
  apart {name : String} : name ∈ vars' → name ∉ vars → fs.hasName name = false

structure Scope.Enlarged (fs : Functions) (s s' : Scope) : Prop where
  bound {name : String} {z : Number} : s.lookup? name = some z → s'.lookup? name = some z
  unbound {name : String} : fs.hasName name = true → s.lookup? name = none →
    s'.lookup? name = none

variable {vars vars' : Variables} {fs fs' : Functions} {s s' : Scope} {e : Expr}

theorem Enlarged.refl (vars : Variables) (fs : Functions) : Enlarged vars vars fs fs where
  values h := h
  overloads h := h
  apart hmem hnot := absurd hmem hnot

theorem Enlarged.insert (h : Enlarged vars vars' fs fs') {name : String} (hnot : name ∉ vars)
    (hname : fs.hasName name = false) (z : Number) :
    Enlarged vars (vars'.insert name z) fs fs' where
  values {name' z'} hz' := by
    have hne : name ≠ name' := by
      rintro rfl
      rw [Std.TreeMap.getElem?_eq_none hnot] at hz'
      cases hz'
    rw [Std.TreeMap.getElem?_insert, if_neg (mt Std.compare_eq_iff_eq.1 hne)]
    exact h.values hz'
  overloads hf := h.overloads hf
  apart {name'} hmem hnot' := by
    rcases Std.TreeMap.mem_insert.1 hmem with heq | hmem
    · rwa [← Std.compare_eq_iff_eq.1 heq]
    · exact h.apart hmem hnot'

theorem Enlarged.define (h : Enlarged vars vars' fs fs') {name : String} {f : UserFunction}
    (hnone : fs.overload? name f.arity = none) : Enlarged vars vars' fs (fs'.define name f) where
  values hz := h.values hz
  overloads {name' k f'} hf' := by
    have hne : ¬ (name = name' ∧ f.arity = k) := by
      rintro ⟨rfl, rfl⟩
      cases hnone.symm.trans hf'
    rw [Functions.overload?_define, if_neg hne]
    exact h.overloads hf'
  apart hmem hnot := h.apart hmem hnot

theorem Enlarged.globals (h : Enlarged vars vars' fs fs') :
    Scope.Enlarged fs (.globals vars) (.globals vars') where
  bound hz := h.values hz
  unbound {name} hname hnone := by
    have hnot : name ∉ vars := by
      rw [Std.TreeMap.mem_iff_isSome_getElem?, show vars[name]? = none from hnone]
      exact Bool.false_ne_true
    refine Std.TreeMap.getElem?_eq_none fun hmem => ?_
    rw [h.apart hmem hnot] at hname
    cases hname

theorem Scope.Enlarged.frame (h : Enlarged fs s s') (params : List String) (zs : List Number) :
    Enlarged fs (.frame params zs s) (.frame params zs s') where
  bound {name z} hz := by
    rw [lookup?] at hz ⊢
    cases hparam : (params.zip zs).lookup name with
    | some w => rwa [hparam] at hz
    | none =>
      rw [hparam, Option.none_or] at hz
      exact h.bound hz
  unbound {name} hname hnone := by
    rw [lookup?, Option.or_eq_none_iff] at hnone ⊢
    exact ⟨hnone.1, h.unbound hname hnone.2⟩

namespace Comparison

/-- After a failure anything may happen. -/
def success : Comparison := ofHalts (fun _ _ => False) (fun _ => True) (.inr trivial)

theorem eq_ok_of_results_success {r r' : Except Halt Number} {z : Number}
    (h : success.Results Eq r r') (hr : r = .ok z) : r' = .ok z := by
  cases h with
  | ok heq => exact heq ▸ hr
  | error h => exact h.elim
  | excused _ => cases hr

theorem success_simulation
    (hoverload : ∀ name k f, fs.overload? name k = some f → fs'.overload? name k = some f) :
    success.Simulation fs fs' fun s s' _ => s.Enlarged fs s' := by
  intro s s' e h
  refine admits_of_calls (fun name k _ => ?_) fun f k _ => .inr (.inr trivial)
  cases hz : s.lookup? name with
  | some z =>
    rw [Environment.resolve_of_bound hz, Environment.resolve_of_bound (h.bound hz)]
    exact .value rfl
  | none =>
    cases hf : fs.overload? name k with
    | none =>
      rw [Environment.resolve_of_missing hz hf]
      exact .excused trivial
    | some f =>
      -- the name is one of a function, so it is not bound by a new variable either
      have hname : fs.hasName name = true := Functions.hasName_of_overload? (by rw [hf]; rfl)
      rw [Environment.resolve_of_overload hz hf,
        Environment.resolve_of_overload (h.unbound hname hz) (hoverload name k f hf)]
      refine .overload fun zs zs' hzs => ?_
      obtain rfl := arguments_ofHalts hzs
      exact h.frame f.params zs'

end Comparison

theorem Enlarged.evalWithin_eq_ok (h : Enlarged vars vars' fs fs') {depth : Nat} {z : Number}
    (hz : e.evalWithin depth (.global vars fs) = .ok z) :
    e.evalWithin depth (.global vars' fs') = .ok z :=
  Comparison.eq_ok_of_results_success
    ((Comparison.success_simulation fun _ _ _ => h.overloads).results depth h.globals) hz

theorem Enlarged.eval_eq_ok (h : Enlarged vars vars' fs fs') {z : Number}
    (hz : e.eval (.global vars fs) = .ok z) : e.eval (.global vars' fs') = .ok z :=
  Expr.eval_related (R := fun r r' => r = .ok z → r' = .ok z) (fun _ => h.evalWithin_eq_ok) hz

end ComplexCalc
