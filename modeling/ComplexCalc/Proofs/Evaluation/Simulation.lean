import ComplexCalc.Evaluation
import ComplexCalc.Proofs.Expr.Nodes
import Mathlib.Data.List.Forall2

/-! Two evaluations of one tree side by side. If the names that the tree uses come to the same thing
in both, step by step, then so do the results, however many calls may be open. -/

namespace ComplexCalc

inductive Resolution
  | value (z : Number)
  | overload (f : UserFunction)
  | missing (e : EvalError)

def Environment.resolve (env : Environment) (name : String) (arity : Nat) : Resolution :=
  match env.scope.lookup? name with
  | some z => .value z
  | none =>
    match env.functions.overload? name arity with
    | some f => .overload f
    | none => .missing (Expr.missing env.functions name arity)

section Resolve
variable {s : Scope} {fs : Functions} {name : String} {k : Nat}

theorem Environment.resolve_of_bound {z : Number} (h : s.lookup? name = some z) (fs : Functions)
    (k : Nat) : resolve ⟨s, fs⟩ name k = .value z := by
  rw [resolve, h]

theorem Environment.resolve_of_overload {f : UserFunction} (h : s.lookup? name = none)
    (hf : fs.overload? name k = some f) : resolve ⟨s, fs⟩ name k = .overload f := by
  rw [resolve, h]
  simp only [hf]

theorem Environment.resolve_of_missing (h : s.lookup? name = none)
    (hf : fs.overload? name k = none) :
    resolve ⟨s, fs⟩ name k = .missing (Expr.missing fs name k) := by
  rw [resolve, h]
  simp only [hf]

theorem Environment.overload?_of_resolve {f : UserFunction}
    (h : resolve ⟨s, fs⟩ name k = .overload f) : fs.overload? name k = some f := by
  rw [resolve] at h
  split at h
  · cases h
  · split at h <;> cases h
    assumption

theorem Environment.of_resolve_eq_missing {e : EvalError}
    (h : resolve ⟨s, fs⟩ name k = .missing e) :
    s.lookup? name = none ∧ fs.overload? name k = none ∧ e = Expr.missing fs name k := by
  rw [resolve] at h
  split at h
  · cases h
  · rename_i hunbound
    split at h <;> cases h
    rename_i hoverload
    exact ⟨hunbound, hoverload, rfl⟩

end Resolve

abbrev Invoker := UserFunction → List Number → Except Halt Number

def Resolution.result (invoke : Invoker) (args : Except Halt (List Number)) :
    Resolution → Except Halt Number
  | value z => .ok z
  | overload f => args >>= invoke f
  | missing e => .error (.failed e)

theorem Expr.evalWith_call (invoke : Invoker) (env : Environment) (name : String)
    (args : List Expr) : evalWith invoke env (.call name args) =
      (env.resolve name args.length).result invoke (evalAll invoke env args) := by
  rw [evalWith, Environment.resolve]
  cases env.scope.lookup? name with
  | some z => rfl
  | none => cases env.functions.overload? name args.length <;> rfl

namespace Builtin
variable {f : Builtin} {zs zs' : List Number}

def Takes (f : Builtin) (arity : Nat) : Prop := arity = 1 ∨ f = log ∧ arity = 2

theorem value?_isSome_iff : (f.value? zs).isSome = true ↔ f.Takes zs.length := by
  rcases zs with _ | ⟨z, _ | ⟨w, _ | ⟨v, zs⟩⟩⟩ <;> cases f <;> simp [value?, Takes]

end Builtin

/-- A way to compare two evaluations. The operators and the builtin functions keep numbers related.
-/
structure Comparison where
  numbers : Number → Number → Prop
  halts : Halt → Halt → Prop
  excuses : Halt → Prop
  refl (z : Number) : numbers z z
  apply (o : Operator) {z z' w w' : Number} : numbers z z' → numbers w w' →
    numbers (o.apply z w) (o.apply z' w')
  value? (f : Builtin) {zs zs' : List Number} {z z' : Number} : List.Forall₂ numbers zs zs' →
    f.value? zs = some z → f.value? zs' = some z' → numbers z z'
  tooDeep : halts .tooDeep .tooDeep ∨ excuses .tooDeep

namespace Comparison
variable (c : Comparison)

inductive Results {α : Type} (R : α → α → Prop) : Except Halt α → Except Halt α → Prop
  | ok {a a' : α} : R a a' → Results R (.ok a) (.ok a')
  | error {h h' : Halt} : c.halts h h' → Results R (.error h) (.error h')
  | excused {h : Halt} {r : Except Halt α} : c.excuses h → Results R (.error h) r

inductive Resolutions (P : UserFunction → Prop) : Resolution → Resolution → Prop
  | value {z z' : Number} : c.numbers z z' → Resolutions P (.value z) (.value z')
  | overload {f : UserFunction} : P f → Resolutions P (.overload f) (.overload f)
  | missing {e e' : EvalError} : c.halts (.failed e) (.failed e') →
    Resolutions P (.missing e) (.missing e')
  | excused {e : EvalError} {r : Resolution} : c.excuses (.failed e) →
    Resolutions P (.missing e) r

/-- What a node has to satisfy so that the evaluations stay related at it: `P f k` is asked for an
overload `f` that is called with `k` arguments. -/
def Admits (P : UserFunction → Nat → Prop) (env env' : Environment) : Node → Prop
  | .call name k => c.Resolutions (P · k) (env.resolve name k) (env'.resolve name k)
  | .builtin f k => f.Takes k ∨ c.halts (.failed (.wrongArity f k)) (.failed (.wrongArity f k)) ∨
    c.excuses (.failed (.wrongArity f k))
  | .number _ | .constant _ | .binary _ => True

variable {c} {α β : Type} {R : α → α → Prop} {Q : β → β → Prop} {env env' : Environment}
  {invoke invoke' : Invoker} {P : UserFunction → Nat → Prop}

theorem admits_of_calls {e : Expr}
    (hcall : ∀ name k, .call name k ∈ e.nodes →
      c.Resolutions (P · k) (env.resolve name k) (env'.resolve name k))
    (hbuiltin : ∀ f k, .builtin f k ∈ e.nodes → f.Takes k ∨
      c.halts (.failed (.wrongArity f k)) (.failed (.wrongArity f k)) ∨
      c.excuses (.failed (.wrongArity f k))) : ∀ node ∈ e.nodes, c.Admits P env env' node := by
  intro node hnode
  cases node with
  | call name k => exact hcall name k hnode
  | builtin f k => exact hbuiltin f k hnode
  | number z => trivial
  | constant k => trivial
  | binary o => trivial

theorem Results.bind {r r' : Except Halt α} {f f' : α → Except Halt β} (h : c.Results R r r')
    (hf : ∀ a a', R a a' → c.Results Q (f a) (f' a')) : c.Results Q (r >>= f) (r' >>= f') := by
  cases h with
  | ok ha => exact hf _ _ ha
  | error hh => exact .error hh
  | excused hh => exact .excused hh

def Arguments (c : Comparison) (k : Nat) (zs zs' : List Number) : Prop :=
  zs.length = k ∧ List.Forall₂ c.numbers zs zs'

theorem Resolutions.results {k : Nat} {r r' : Resolution} {args args' : Except Halt (List Number)}
    (h : c.Resolutions (P · k) r r') (hargs : c.Results (c.Arguments k) args args')
    (hinvoke : ∀ f k zs zs', P f k → c.Arguments k zs zs' →
      c.Results c.numbers (invoke f zs) (invoke' f zs')) :
    c.Results c.numbers (r.result invoke args) (r'.result invoke' args') := by
  cases h with
  | value hz => exact .ok hz
  | overload hf => exact hargs.bind fun zs zs' hzs => hinvoke _ _ zs zs' hf hzs
  | missing he => exact .error he
  | excused he => exact .excused he

theorem results_value? {k : Nat} {f : Builtin} {zs zs' : List Number} (h : c.Arguments k zs zs')
    (hf : f.Takes k ∨ c.halts (.failed (.wrongArity f k)) (.failed (.wrongArity f k)) ∨
      c.excuses (.failed (.wrongArity f k))) :
    c.Results c.numbers
      (match f.value? zs with
        | some z => .ok z
        | none => .error (.failed (.wrongArity f zs.length)))
      (match f.value? zs' with
        | some z => .ok z
        | none => .error (.failed (.wrongArity f zs'.length))) := by
  obtain ⟨rfl, hzs⟩ := h
  have hlength := hzs.length_eq
  have hsome : (f.value? zs).isSome = (f.value? zs').isSome := by
    rw [Bool.eq_iff_iff, Builtin.value?_isSome_iff, Builtin.value?_isSome_iff, hlength]
  cases hz : f.value? zs with
  | some z =>
    cases hz' : f.value? zs' with
    | some z' => exact .ok (c.value? f hzs hz hz')
    | none => simp [hz, hz'] at hsome
  | none =>
    cases hz' : f.value? zs' with
    | some z' => simp [hz, hz'] at hsome
    | none =>
      rw [← hlength]
      rcases hf with htakes | hhalts | hexcuses
      · rw [← Builtin.value?_isSome_iff, hz] at htakes
        cases htakes
      · exact .error hhalts
      · exact .excused hexcuses

mutual

theorem evalWith_results
    (hinvoke : ∀ f k zs zs', P f k → c.Arguments k zs zs' →
      c.Results c.numbers (invoke f zs) (invoke' f zs')) :
    ∀ e : Expr, (∀ node ∈ e.nodes, c.Admits P env env' node) →
      c.Results c.numbers (e.evalWith invoke env) (e.evalWith invoke' env')
  | .number z, _ => by
    rw [Expr.evalWith, Expr.evalWith]
    exact .ok (c.refl z)
  | .constant k, _ => by
    rw [Expr.evalWith, Expr.evalWith]
    exact .ok (c.refl k.value)
  | .call name args, h => by
    have hcall : c.Resolutions (P · args.length) _ _ := h _ List.mem_cons_self
    have hargs := evalAll_results hinvoke args fun node hnode =>
      h node (List.mem_cons_of_mem _ hnode)
    rw [Expr.evalWith_call, Expr.evalWith_call]
    exact hcall.results hargs hinvoke
  | .builtin f args, h => by
    have hf : f.Takes args.length ∨ _ := h _ List.mem_cons_self
    have hargs := evalAll_results hinvoke args fun node hnode =>
      h node (List.mem_cons_of_mem _ hnode)
    rw [Expr.evalWith, Expr.evalWith]
    exact hargs.bind fun zs zs' hzs => results_value? hzs hf
  | .binary o lhs rhs, h => by
    have hl := evalWith_results hinvoke lhs fun node hnode =>
      h node (List.mem_cons_of_mem _ (List.mem_append_left _ hnode))
    have hr := evalWith_results hinvoke rhs fun node hnode =>
      h node (List.mem_cons_of_mem _ (List.mem_append_right _ hnode))
    rw [Expr.evalWith, Expr.evalWith]
    exact hl.bind fun z z' hz => hr.bind fun w w' hw => .ok (c.apply o hz hw)

theorem evalAll_results
    (hinvoke : ∀ f k zs zs', P f k → c.Arguments k zs zs' →
      c.Results c.numbers (invoke f zs) (invoke' f zs')) :
    ∀ es : List Expr, (∀ node ∈ Expr.nodesAll es, c.Admits P env env' node) →
      c.Results (c.Arguments es.length) (Expr.evalAll invoke env es) (Expr.evalAll invoke' env' es)
  | [], _ => by
    rw [Expr.evalAll, Expr.evalAll]
    exact .ok ⟨rfl, .nil⟩
  | e :: es, h => by
    have he := evalWith_results hinvoke e fun node hnode => h node (List.mem_append_left _ hnode)
    have hes := evalAll_results hinvoke es fun node hnode => h node (List.mem_append_right _ hnode)
    rw [Expr.evalAll, Expr.evalAll]
    exact he.bind fun z z' hz => hes.bind fun zs zs' hzs =>
      .ok ⟨congrArg (· + 1) hzs.1, .cons hz hzs.2⟩

end

/-- A relation between two scopes and a tree that every call made by the tree keeps: a simulation of
the one evaluation by the other. -/
def Simulation (c : Comparison) (fs fs' : Functions) (S : Scope → Scope → Expr → Prop) : Prop :=
  ∀ s s' e, S s s' e → ∀ node ∈ e.nodes, c.Admits
    (fun f k => ∀ zs zs', c.Arguments k zs zs' →
      S (.frame f.params zs s) (.frame f.params zs' s') f.body) ⟨s, fs⟩ ⟨s', fs'⟩ node

end Comparison

namespace Expr

def invokeWithin : (depth : Nat) → Environment → Invoker
  | 0, _ => fun _ _ => .error .tooDeep
  | depth + 1, env => fun f zs => f.body.evalWithin depth (env.enter f zs)

theorem evalWithin_eq (depth : Nat) (env : Environment) (e : Expr) :
    e.evalWithin depth env = e.evalWith (invokeWithin depth env) env := by
  cases depth <;> rw [evalWithin, invokeWithin]

end Expr

namespace Comparison
variable {c : Comparison} {fs fs' : Functions} {S : Scope → Scope → Expr → Prop} {s s' : Scope}
  {e : Expr}

theorem Simulation.results (h : c.Simulation fs fs' S) (depth : Nat) (hs : S s s' e) :
    c.Results c.numbers (e.evalWithin depth ⟨s, fs⟩) (e.evalWithin depth ⟨s', fs'⟩) := by
  induction depth generalizing s s' e with
  | zero =>
    rw [Expr.evalWithin_eq, Expr.evalWithin_eq]
    refine evalWith_results ?_ e (h s s' e hs)
    intro f k zs zs' _ _
    rcases c.tooDeep with htooDeep | htooDeep
    · exact .error htooDeep
    · exact .excused htooDeep
  | succ depth ih =>
    rw [Expr.evalWithin_eq, Expr.evalWithin_eq]
    refine evalWith_results ?_ e (h s s' e hs)
    intro f k zs zs' hf hzs
    exact ih (hf zs zs' hzs)

def ofHalts (halts : Halt → Halt → Prop) (excuses : Halt → Prop)
    (tooDeep : halts .tooDeep .tooDeep ∨ excuses .tooDeep) : Comparison where
  numbers := Eq
  halts := halts
  excuses := excuses
  refl _ := rfl
  apply o z z' w w' hz hw := by rw [hz, hw]
  value? f zs zs' z z' hzs hz hz' := by
    rw [List.forall₂_eq_eq_eq] at hzs
    rw [hzs, hz'] at hz
    exact (Option.some.inj hz).symm
  tooDeep := tooDeep

theorem tooDeep_related : Halt.tooDeep = .tooDeep ∨ False := .inl rfl

def equal : Comparison := ofHalts Eq (fun _ => False) tooDeep_related

theorem eq_of_results {α : Type} {r r' : Except Halt α} (h : equal.Results Eq r r') : r = r' := by
  cases h with
  | ok h => rw [h]
  | error h => exact congrArg Except.error h
  | excused h => exact h.elim

theorem results_equal {α : Type} (r : Except Halt α) : equal.Results Eq r r := by
  cases r with
  | ok a => exact .ok rfl
  | error h => exact .error rfl

theorem arguments_ofHalts {halts : Halt → Halt → Prop} {excuses : Halt → Prop}
    {tooDeep : halts .tooDeep .tooDeep ∨ excuses .tooDeep} {k : Nat} {zs zs' : List Number}
    (h : (ofHalts halts excuses tooDeep).Arguments k zs zs') : zs' = zs := by
  have hzs : List.Forall₂ Eq zs zs' := h.2
  rw [List.forall₂_eq_eq_eq] at hzs
  exact hzs.symm

end Comparison

end ComplexCalc
