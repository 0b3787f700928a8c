import ComplexCalc.Proofs.Environment.Scope
import ComplexCalc.Proofs.Evaluation.Reach

/-! Trees all of whose names come to something. If every call in a tree, and in the bodies that it
reaches, has a variable, a parameter or an overload to come to, then the tree fails nowhere: the
parameters of an overload are all bound when its body is evaluated, and an open call hides no name.
-/

namespace ComplexCalc

instance (f : Builtin) (k : Nat) : Decidable (f.Takes k) :=
  inferInstanceAs (Decidable (_ ∨ _ ∧ _))

/-- Whether a node comes to something where the parameters are bound: a call is of a parameter or of
a variable, or has an overload, and a builtin function takes as many arguments as it has. -/
def Node.Resolved (vars : Variables) (fs : Functions) (params : List String) : Node → Prop
  | call name k => name ∈ params ∨ name ∈ vars ∨ (fs.overload? name k).isSome = true
  | builtin f k => f.Takes k
  | number _ | constant _ | binary _ => True

instance (vars : Variables) (fs : Functions) (params : List String) :
    DecidablePred (Node.Resolved vars fs params)
  | .call _ _ => inferInstanceAs (Decidable (_ ∨ _ ∨ _))
  | .builtin f k => inferInstanceAs (Decidable (f.Takes k))
  | .number _ | .constant _ | .binary _ => inferInstanceAs (Decidable True)

structure Expr.WellResolved (e : Expr) (vars : Variables) (fs : Functions) : Prop where
  own : ∀ node ∈ e.nodes, node.Resolved vars fs []
  body {name : String} {k : Nat} {f : UserFunction} : e.Reaches fs name k →
    fs.overload? name k = some f → ∀ node ∈ f.body.nodes, node.Resolved vars fs f.params

variable {vars : Variables} {fs : Functions} {e tree : Expr} {s : Scope} {env : Environment}

theorem Expr.WellResolved.of_all (hown : ∀ node ∈ e.nodes, node.Resolved vars fs [])
    (hall : ∀ f ∈ fs.all, ∀ node ∈ f.body.nodes, node.Resolved vars fs f.params) :
    e.WellResolved vars fs where
  own := hown
  body _ hf := hall _ (Functions.mem_all_of_overload? hf)

namespace Scope
variable {params : List String} {zs : List Number} {name : String}

theorem Binds.frame (h : s.Binds name) (params : List String) (zs : List Number) :
    (Scope.frame params zs s).Binds name := by
  rw [Binds, lookup?, Option.isSome_or, h, Bool.or_true]

theorem binds_param (hlength : zs.length = params.length) (hname : name ∈ params) (s : Scope) :
    (Scope.frame params zs s).Binds name := by
  rw [Binds, lookup?_frame_of_mem hlength hname]
  exact lookup_zip_isSome hlength hname

end Scope

namespace Comparison

def safe : Comparison := ofHalts (fun h _ => h = .tooDeep) (fun _ => False) tooDeep_related

theorem ok_of_results_safe {r r' : Except Halt Number} (h : safe.Results Eq r r') :
    r = .error .tooDeep ∨ ∃ z, r = .ok z := by
  cases h with
  | ok _ => exact .inr ⟨_, rfl⟩
  | error h => exact .inl (congrArg Except.error h)
  | excused h => exact h.elim

structure Resolves (vars : Variables) (fs : Functions) (R : Calls) (s : Scope) (e : Expr) :
    Prop where
  calls : e.CallsOnly R
  globals {name : String} : name ∈ vars → s.Binds name
  nodes : ∃ params, (∀ p ∈ params, s.Binds p) ∧ ∀ node ∈ e.nodes, node.Resolved vars fs params

theorem Resolves.of_call (h : Resolves vars fs (tree.Reaches fs) s e)
    (htree : tree.WellResolved vars fs) (hfs : fs.ByArity) {name : String} {k : Nat}
    {f : UserFunction} (hname : .call name k ∈ e.nodes) (hf : fs.overload? name k = some f)
    {zs : List Number} (hzs : zs.length = k) :
    Resolves vars fs (tree.Reaches fs) (.frame f.params zs s) f.body := by
  have hreach := h.calls name k hname
  refine ⟨fun _ _ hnode => .body hreach hf hnode, fun hvar => (h.globals hvar).frame _ _, ?_⟩
  have hlength : zs.length = f.params.length := hzs.trans (hfs name k f hf).symm
  exact ⟨f.params, fun p hp => Scope.binds_param hlength hp s, htree.body hreach hf⟩

theorem Resolves.isSome_of_unbound (h : Resolves vars fs R s e) {name : String} {k : Nat}
    (hname : .call name k ∈ e.nodes) (hunbound : s.lookup? name = none) :
    (fs.overload? name k).isSome = true := by
  have hnone : ¬ s.Binds name := by
    rw [Scope.Binds, hunbound]
    exact Bool.false_ne_true
  obtain ⟨params, hparams, hnodes⟩ := h.nodes
  rcases hnodes _ hname with hparam | hvar | hsome
  · exact absurd (hparams name hparam) hnone
  · exact absurd (h.globals hvar) hnone
  · exact hsome

theorem safe_simulation (htree : tree.WellResolved vars fs) (hfs : fs.ByArity) :
    safe.Simulation fs fs fun s s' e => s' = s ∧ Resolves vars fs (tree.Reaches fs) s e := by
  rintro _ s e ⟨rfl, h⟩
  obtain ⟨params, -, hnodes⟩ := h.nodes
  refine admits_of_calls (fun name k hnode => ?_) fun f k hnode => .inl (hnodes _ hnode)
  cases hz : s.lookup? name with
  | some z =>
    rw [Environment.resolve_of_bound hz]
    exact .value rfl
  | none =>
    obtain ⟨f, hf⟩ := Option.isSome_iff_exists.1 (h.isSome_of_unbound hnode hz)
    rw [Environment.resolve_of_overload hz hf]
    refine .overload fun zs zs' hzs => ?_
    obtain rfl := arguments_ofHalts hzs
    exact ⟨rfl, h.of_call htree hfs hnode hf hzs.1⟩

end Comparison

theorem Expr.WellResolved.evalWithin (htree : tree.WellResolved vars fs) (hfs : fs.ByArity)
    (depth : Nat) : tree.evalWithin depth (.global vars fs) = .error .tooDeep ∨
      ∃ z, tree.evalWithin depth (.global vars fs) = .ok z := by
  refine Comparison.ok_of_results_safe
    ((Comparison.safe_simulation htree hfs).results depth ⟨rfl, ?_⟩)
  refine ⟨fun _ _ hnode => .own hnode, fun {name} hvar => ?_, [], nofun, htree.own⟩
  rw [Scope.Binds, Scope.lookup?, ← Std.TreeMap.mem_iff_isSome_getElem?]
  exact hvar

end ComplexCalc
