import ComplexCalc.Proofs.Evaluation.Simulation

/-! Environments that agree on some calls: on the variables of their names, and on the overloads
that they come to. If the bodies of these overloads make no other calls, then a tree that makes no
other calls has related results. -/

namespace ComplexCalc

abbrev Calls := String → Nat → Prop

def Expr.CallsOnly (e : Expr) (R : Calls) : Prop := ∀ name k, .call name k ∈ e.nodes → R name k

namespace Comparison
variable {c : Comparison} {fs fs' : Functions} {s s' : Scope} {R : Calls} {e : Expr}
  {name : String} {zs zs' : List Number}

def Scopes (c : Comparison) (R : Calls) (s s' : Scope) : Prop :=
  ∀ name k, R name k → Option.Rel c.numbers (s.lookup? name) (s'.lookup? name)

/-- Whether some calls come to the same overloads, or to related failures. -/
structure Tables (c : Comparison) (R : Calls) (fs fs' : Functions) : Prop where
  overload {name : String} {k : Nat} : R name k → fs.overload? name k = fs'.overload? name k
  missing {name : String} {k : Nat} : R name k → fs.overload? name k = none →
    c.halts (.failed (Expr.missing fs name k)) (.failed (Expr.missing fs' name k))
  closed {name : String} {k : Nat} {f : UserFunction} : R name k →
    fs.overload? name k = some f → f.body.CallsOnly R
  arity (f : Builtin) (k : Nat) :
    c.halts (.failed (.wrongArity f k)) (.failed (.wrongArity f k))

theorem rel_lookup (hzs : List.Forall₂ c.numbers zs zs') (params : List String) (name : String) :
    Option.Rel c.numbers ((params.zip zs).lookup name) ((params.zip zs').lookup name) := by
  induction hzs generalizing params with
  | nil =>
    rw [List.zip_nil_right]
    exact .none
  | cons hz _ ih =>
    cases params with
    | nil => exact .none
    | cons param params =>
      rw [List.zip_cons_cons, List.zip_cons_cons, List.lookup_cons, List.lookup_cons]
      split
      · exact .some hz
      · exact ih params

theorem Scopes.frame (h : c.Scopes R s s') (hzs : List.Forall₂ c.numbers zs zs')
    (params : List String) : c.Scopes R (.frame params zs s) (.frame params zs' s') := by
  intro name k hname
  have hframe := rel_lookup hzs params name
  rw [Scope.lookup?, Scope.lookup?]
  generalize (params.zip zs).lookup name = z at hframe ⊢
  generalize (params.zip zs').lookup name = z' at hframe ⊢
  cases hframe with
  | some hz => exact .some hz
  | none => exact h name k hname

theorem resolutions {P : UserFunction → Prop} {k : Nat} (hs : c.Scopes R s s')
    (hfs : c.Tables R fs fs') (hname : R name k) (hP : ∀ f, fs.overload? name k = some f → P f) :
    c.Resolutions P (Environment.resolve ⟨s, fs⟩ name k)
      (Environment.resolve ⟨s', fs'⟩ name k) := by
  have hvalue := hs name k hname
  have hoverload := hfs.overload hname
  generalize hz : s.lookup? name = z at hvalue
  generalize hz' : s'.lookup? name = z' at hvalue
  cases hvalue with
  | some h =>
    rw [Environment.resolve_of_bound hz, Environment.resolve_of_bound hz']
    exact .value h
  | none =>
    cases hf : fs.overload? name k with
    | some f =>
      rw [Environment.resolve_of_overload hz hf,
        Environment.resolve_of_overload hz' (hoverload.symm.trans hf)]
      exact .overload (hP f hf)
    | none =>
      rw [Environment.resolve_of_missing hz hf,
        Environment.resolve_of_missing hz' (hoverload.symm.trans hf)]
      exact .missing (hfs.missing hname hf)

theorem Tables.admits {P : UserFunction → Nat → Prop} (hfs : c.Tables R fs fs')
    (hs : c.Scopes R s s') (he : e.CallsOnly R)
    (hP : ∀ name k f, R name k → fs.overload? name k = some f → P f k) :
    ∀ node ∈ e.nodes, c.Admits P ⟨s, fs⟩ ⟨s', fs'⟩ node := by
  refine admits_of_calls (fun name k hnode => ?_) fun f k _ => .inr (.inl (hfs.arity f k))
  have hname := he name k hnode
  exact resolutions hs hfs hname fun f hf => hP name k f hname hf

theorem Tables.simulation (hfs : c.Tables R fs fs') :
    c.Simulation fs fs' fun s s' e => e.CallsOnly R ∧ c.Scopes R s s' := by
  rintro s s' e ⟨he, hs⟩
  refine hfs.admits hs he fun name k f hname hf zs zs' hzs => ?_
  exact ⟨hfs.closed hname hf, hs.frame hzs.2 f.params⟩

theorem Tables.results (hfs : c.Tables R fs fs') (hs : c.Scopes R s s') (he : e.CallsOnly R)
    (depth : Nat) :
    c.Results c.numbers (e.evalWithin depth ⟨s, fs⟩) (e.evalWithin depth ⟨s', fs'⟩) :=
  hfs.simulation.results depth ⟨he, hs⟩

/-! One table beside itself -/

theorem tables_self (hhalts : ∀ h, c.halts h h) (fs : Functions) :
    c.Tables (fun _ _ => True) fs fs where
  overload _ := rfl
  missing _ _ := hhalts _
  closed _ _ _ _ _ := trivial
  arity _ _ := hhalts _

theorem scopes_self (c : Comparison) (R : Calls) (s : Scope) : c.Scopes R s s := by
  intro name k _
  cases s.lookup? name with
  | none => exact .none
  | some z => exact .some (c.refl z)

end Comparison

end ComplexCalc
