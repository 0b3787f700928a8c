import ComplexCalc.Proofs.Evaluation.OpenCalls

/-! The calls that a tree can reach, and the bindings that its value depends on: those of their
names and of their overloads. -/

namespace ComplexCalc

/-- The calls in a tree, and those in the bodies of the overloads that it reaches. -/
inductive Expr.Reaches (fs : Functions) (e : Expr) : Calls
  | own {name : String} {k : Nat} : .call name k ∈ e.nodes → Reaches fs e name k
  | body {name name' : String} {k k' : Nat} {f : UserFunction} : Reaches fs e name k →
    fs.overload? name k = some f → .call name' k' ∈ f.body.nodes → Reaches fs e name' k'

/-- Whether two tables of variables and functions have the same to say about some calls. -/
structure AgreeOn (R : Calls) (vars vars' : Variables) (fs fs' : Functions) : Prop where
  vars {name : String} {k : Nat} : R name k → vars[name]? = vars'[name]?
  overload {name : String} {k : Nat} : R name k → fs.overload? name k = fs'.overload? name k
  hasName {name : String} {k : Nat} : R name k → fs.hasName name = fs'.hasName name

variable {vars vars' : Variables} {fs fs' : Functions} {e : Expr} {R : Calls}

theorem Expr.Reaches.least (hown : e.CallsOnly R)
    (hbody : ∀ name k f, R name k → fs.overload? name k = some f → f.body.CallsOnly R)
    {name : String} {k : Nat} (h : e.Reaches fs name k) : R name k := by
  induction h with
  | own hnode => exact hown _ _ hnode
  | body _ hf hnode ih => exact hbody _ _ _ ih hf _ _ hnode

namespace Comparison
variable {halts : Halt → Halt → Prop}

theorem scopes_globals {c : Comparison} (h : ∀ name k, R name k → vars[name]? = vars'[name]?) :
    c.Scopes R (.globals vars) (.globals vars') := by
  intro name k hname
  rw [Scope.lookup?, Scope.lookup?, h name k hname]
  exact scopes_self c R (.globals vars') name k hname

theorem results_of_reaches (hrefl : ∀ h, halts h h)
    (hvars : ∀ name k, e.Reaches fs name k → vars[name]? = vars'[name]?)
    (hoverload : ∀ name k, e.Reaches fs name k → fs.overload? name k = fs'.overload? name k)
    (hmissing : ∀ name k, e.Reaches fs name k → fs.overload? name k = none →
      halts (.failed (Expr.missing fs name k)) (.failed (Expr.missing fs' name k)))
    (depth : Nat) :
    (ofHalts halts (fun _ => False) (.inl (hrefl _))).Results Eq
      (e.evalWithin depth (.global vars fs)) (e.evalWithin depth (.global vars' fs')) := by
  have hfs : (ofHalts halts (fun _ => False) (.inl (hrefl _))).Tables (e.Reaches fs) fs fs' :=
    { overload := fun hname => hoverload _ _ hname
      missing := fun hname => hmissing _ _ hname
      closed := fun hname hf _ _ hnode => .body hname hf hnode
      arity := fun _ _ => hrefl _ }
  exact hfs.results (scopes_globals hvars) (fun _ _ hnode => .own hnode) depth

end Comparison

theorem AgreeOn.evalWithin_eq (h : AgreeOn (e.Reaches fs) vars vars' fs fs') (depth : Nat) :
    e.evalWithin depth (.global vars fs) = e.evalWithin depth (.global vars' fs') := by
  refine Comparison.eq_of_results (Comparison.results_of_reaches (fun _ => rfl)
    (fun _ _ => h.vars) (fun _ _ => h.overload) (fun name k hname _ => ?_) depth)
  rw [Expr.missing, Expr.missing, h.hasName hname]

theorem AgreeOn.eval_eq (h : AgreeOn (e.Reaches fs) vars vars' fs fs') :
    e.eval (.global vars fs) = e.eval (.global vars' fs') :=
  Expr.eval_related h.evalWithin_eq

def Halt.Named (R : Calls) (name : String) (h h' : Halt) : Prop :=
  h' = h ∨ ∃ k, R name k ∧ h = .failed (.unresolved name) ∧ h' = .failed (.noOverload name k)

namespace Expr
variable {name : String} {f : UserFunction}

theorem overload?_define_of_reaches (h : ¬ e.Reaches fs name f.arity) {name' : String} {k : Nat}
    (hname : e.Reaches fs name' k) :
    fs.overload? name' k = (fs.define name f).overload? name' k := by
  rw [Functions.overload?_define, if_neg]
  rintro ⟨rfl, rfl⟩
  exact h hname

theorem named_missing_define (hhas : fs.hasName name = false) {name' : String} {k : Nat}
    (hname : R name' k) : Halt.Named R name (.failed (missing fs name' k))
      (.failed (missing (fs.define name f) name' k)) := by
  rw [missing, missing, Functions.hasName_define]
  by_cases heq : name = name'
  · subst heq
    exact .inr ⟨k, hname, by rw [hhas]; rfl, by simp⟩
  · exact .inl (by rw [beq_false_of_ne heq, Bool.false_or])

theorem eval_define (h : ¬ e.Reaches fs name f.arity) :
    e.eval (.global vars (fs.define name f)) = e.eval (.global vars fs) ∨
    fs.hasName name = false ∧ ∃ k, e.Reaches fs name k ∧
      e.eval (.global vars fs) = .error (.failed (.unresolved name)) ∧
      e.eval (.global vars (fs.define name f)) = .error (.failed (.noOverload name k)) := by
  cases hhas : fs.hasName name with
  | true =>
    have hagree : AgreeOn (e.Reaches fs) vars vars fs (fs.define name f) :=
      { vars := fun _ => rfl
        overload := overload?_define_of_reaches h
        hasName := fun {name' _} _ => by
          rw [Functions.hasName_define]
          by_cases heq : name = name'
          · rw [← heq, hhas, Bool.or_true]
          · rw [beq_false_of_ne heq, Bool.false_or] }
    exact .inl hagree.eval_eq.symm
  | false =>
    have hresults := eval_related (Comparison.results_of_reaches
      (fun h => (.inl rfl : Halt.Named (e.Reaches fs) name h h))
      (fun name _ _ => (rfl : vars[name]? = vars[name]?)) (fun _ _ => overload?_define_of_reaches h)
      (fun _ _ hname _ => named_missing_define hhas hname))
    generalize e.eval (.global vars fs) = r at hresults ⊢
    generalize e.eval (.global vars (fs.define name f)) = r' at hresults ⊢
    cases hresults with
    | ok heq => exact .inl (congrArg Except.ok heq.symm)
    | error hnamed =>
      rcases hnamed with heq | ⟨k, hname, hfirst, hsecond⟩
      · exact .inl (congrArg Except.error heq)
      · exact .inr ⟨rfl, k, hname, congrArg Except.error hfirst, congrArg Except.error hsecond⟩
    | excused hfalse => exact hfalse.elim

end Expr

end ComplexCalc
