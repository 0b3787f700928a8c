import ComplexCalc.Proofs.Environment.Functions
import ComplexCalc.Proofs.Evaluation.Agreement
import Mathlib.Data.List.Perm.Subperm
import Mathlib.Data.List.ProdSigma
import Mathlib.Data.Nat.Find

/-! How many calls are open at once in an evaluation that ends. What a tree does depends only on
which names are bound, and a call binds parameters of overloads over those that are bound already.
Two open calls of one overload with the same names bound would need the same number of further
calls, but the inner one needs fewer; so the calls that are open at once differ in their overload or
in the number of parameters that are bound, and there are never more of them than `callLimit`. -/

namespace ComplexCalc

namespace Comparison

/-- Having too many calls open is excused. -/
def deeper : Comparison := ofHalts Eq (· = .tooDeep) (.inl rfl)

def outcome : Comparison where
  numbers _ _ := True
  halts := Eq
  excuses _ := False
  refl _ := trivial
  apply _ _ _ _ _ _ _ := trivial
  value? _ _ _ _ _ _ _ _ := trivial
  tooDeep := tooDeep_related

theorem results_deeper_iff {r r' : Except Halt Number} :
    deeper.Results Eq r r' ↔ (r ≠ .error .tooDeep → r' = r) := by
  constructor
  · intro h hr
    cases h with
    | ok h => rw [h]
    | error h => exact congrArg Except.error h.symm
    | excused h => exact absurd (congrArg Except.error h) hr
  · intro h
    cases r with
    | ok z =>
      rw [h nofun]
      exact .ok rfl
    | error halt =>
      by_cases hhalt : halt = .tooDeep
      · exact .excused hhalt
      · rw [h fun heq => hhalt (Except.error.inj heq)]
        exact .error rfl

theorem ends_iff_of_outcome {r r' : Except Halt Number} (h : outcome.Results outcome.numbers r r') :
    r ≠ .error .tooDeep ↔ r' ≠ .error .tooDeep := by
  cases h with
  | ok _ => simp
  | error h =>
    have heq : _ = _ := h
    rw [heq]
  | excused h => exact h.elim

end Comparison

namespace Expr
variable {env : Environment} {e : Expr} {depth depth' : Nat}

theorem evalWith_deeper {invoke invoke' : Invoker}
    (h : ∀ f zs, invoke f zs ≠ .error .tooDeep → invoke' f zs = invoke f zs)
    (hends : e.evalWith invoke env ≠ .error .tooDeep) :
    e.evalWith invoke' env = e.evalWith invoke env := by
  have hresults :
      Comparison.deeper.Results Eq (e.evalWith invoke env) (e.evalWith invoke' env) := by
    refine Comparison.evalWith_results (P := fun _ _ => True) ?_ e ?_
    · intro f k zs zs' _ hzs
      rw [Comparison.arguments_ofHalts hzs]
      exact Comparison.results_deeper_iff.2 (h f zs)
    · exact (Comparison.tables_self (fun _ => rfl) env.functions).admits
        (Comparison.scopes_self _ _ env.scope) (fun _ _ _ => trivial) fun _ _ _ _ _ => trivial
  exact Comparison.results_deeper_iff.1 hresults hends

theorem evalWithin_succ (h : e.evalWithin depth env ≠ .error .tooDeep) :
    e.evalWithin (depth + 1) env = e.evalWithin depth env := by
  induction depth generalizing env e with
  | zero =>
    rw [evalWithin_eq 0] at h ⊢
    rw [evalWithin_eq]
    refine evalWith_deeper (fun f zs hends => ?_) h
    exact absurd rfl hends
  | succ depth ih =>
    rw [evalWithin_eq (depth + 1)] at h ⊢
    rw [evalWithin_eq]
    exact evalWith_deeper (fun f zs hends => ih hends) h

theorem evalWithin_of_le (h : e.evalWithin depth env ≠ .error .tooDeep) (hle : depth ≤ depth') :
    e.evalWithin depth' env = e.evalWithin depth env := by
  induction hle with
  | refl => rfl
  | step _ ih => rw [evalWithin_succ (by rwa [ih]), ih]

structure Needs (depth : Nat) (env : Environment) (e : Expr) : Prop where
  ends : e.evalWithin depth env ≠ .error .tooDeep
  least : ∀ depth' < depth, e.evalWithin depth' env = .error .tooDeep

theorem Needs.unique (h : Needs depth env e) (h' : Needs depth' env e) : depth = depth' := by
  rcases Nat.lt_trichotomy depth depth' with hlt | heq | hlt
  · exact absurd (h'.least depth hlt) h.ends
  · exact heq
  · exact absurd (h.least depth' hlt) h'.ends

theorem exists_needs (h : e.evalWithin depth env ≠ .error .tooDeep) :
    ∃ least, Needs least env e := by
  classical
  have hex : ∃ depth, e.evalWithin depth env ≠ .error .tooDeep := ⟨depth, h⟩
  exact ⟨Nat.find hex, Nat.find_spec hex, fun depth' hlt => not_not.1 (Nat.find_min hex hlt)⟩

theorem evalWith_congr {invoke invoke' : Invoker}
    (h : ∀ f ∈ env.functions.all, ∀ zs, invoke f zs = invoke' f zs) :
    e.evalWith invoke env = e.evalWith invoke' env := by
  have hresults : Comparison.equal.Results Eq (e.evalWith invoke env) (e.evalWith invoke' env) := by
    refine Comparison.evalWith_results (P := fun f _ => f ∈ env.functions.all) ?_ e ?_
    · intro f k zs zs' hf hzs
      rw [Comparison.arguments_ofHalts hzs, h f hf zs]
      exact Comparison.results_equal _
    · exact (Comparison.tables_self (fun _ => rfl) env.functions).admits
        (Comparison.scopes_self _ _ env.scope) (fun _ _ _ => trivial)
        fun _ _ _ _ hf => Functions.mem_all_of_overload? hf
  exact Comparison.eq_of_results hresults

theorem needs_of_invokeWithin_ne {f : UserFunction} {zs : List Number}
    (h : invokeWithin depth env f zs ≠ invokeWithin (depth + 1) env f zs) :
    Needs depth (env.enter f zs) f.body := by
  cases depth with
  | zero => exact ⟨h.symm, nofun⟩
  | succ depth =>
    have htooDeep : f.body.evalWithin depth (env.enter f zs) = .error .tooDeep := by
      by_contra hends
      exact h (evalWithin_succ hends).symm
    refine ⟨fun heq => h (htooDeep.trans heq.symm), fun depth' hlt => ?_⟩
    by_contra hends
    rw [evalWithin_of_le hends (Nat.le_of_lt_succ hlt)] at htooDeep
    exact hends htooDeep

theorem Needs.exists_call (h : Needs (depth + 1) env e) :
    ∃ f ∈ env.functions.all, ∃ zs, Needs depth (env.enter f zs) f.body := by
  by_contra hnone
  have hsame : ∀ f ∈ env.functions.all, ∀ zs,
      invokeWithin depth env f zs = invokeWithin (depth + 1) env f zs := by
    intro f hf zs
    by_contra hne
    exact hnone ⟨f, hf, zs, needs_of_invokeWithin_ne hne⟩
  have hends := h.ends
  rw [evalWithin_eq, ← evalWith_congr hsame, ← evalWithin_eq] at hends
  exact hends (h.least depth (Nat.lt_succ_self depth))

end Expr

namespace Scope
variable {fs : Functions} {s s' s'' : Scope} {e : Expr} {depth : Nat}

def Binds (s : Scope) (name : String) : Prop := (s.lookup? name).isSome = true

instance (s : Scope) : DecidablePred s.Binds := fun _ => inferInstanceAs (Decidable (_ = true))

theorem ends_iff (h : ∀ name, s.Binds name ↔ s'.Binds name) :
    e.evalWithin depth ⟨s, fs⟩ ≠ .error .tooDeep ↔
      e.evalWithin depth ⟨s', fs⟩ ≠ .error .tooDeep := by
  have hs : Comparison.outcome.Scopes (fun _ _ => True) s s' := by
    intro name k _
    have hname := h name
    rw [Binds, Binds] at hname
    cases hz : s.lookup? name with
    | none =>
      cases hz' : s'.lookup? name with
      | none => exact .none
      | some z' => simp [hz, hz'] at hname
    | some z =>
      cases hz' : s'.lookup? name with
      | none => simp [hz, hz'] at hname
      | some z' => exact .some trivial
  exact Comparison.ends_iff_of_outcome
    ((Comparison.tables_self (fun _ => rfl) fs).results hs (fun _ _ _ => trivial) depth)

theorem needs_iff (h : ∀ name, s.Binds name ↔ s'.Binds name) :
    e.Needs depth ⟨s, fs⟩ ↔ e.Needs depth ⟨s', fs⟩ := by
  constructor
  · rintro ⟨hends, hleast⟩
    refine ⟨(ends_iff h).1 hends, fun depth' hlt => ?_⟩
    by_contra hne
    exact (ends_iff h).2 hne (hleast depth' hlt)
  · rintro ⟨hends, hleast⟩
    refine ⟨(ends_iff h).2 hends, fun depth' hlt => ?_⟩
    by_contra hne
    exact (ends_iff h).1 hne (hleast depth' hlt)

end Scope

namespace Functions
variable {fs : Functions} {s s' s'' : Scope}

def params (fs : Functions) : List String := fs.all.flatMap (·.params)

def level (fs : Functions) (s : Scope) : Nat := (fs.params.filter fun name => s.Binds name).length

structure Extends (fs : Functions) (s s' : Scope) : Prop where
  binds {name : String} : s.Binds name → s'.Binds name
  params {name : String} : s'.Binds name → s.Binds name ∨ name ∈ fs.params

theorem Extends.trans (h : fs.Extends s s') (h' : fs.Extends s' s'') : fs.Extends s s'' where
  binds hname := h'.binds (h.binds hname)
  params hname := (h'.params hname).elim h.params .inr

theorem extends_frame {f : UserFunction} (hf : f ∈ fs.all) (zs : List Number) (s : Scope) :
    fs.Extends s (.frame f.params zs s) where
  binds {name} hname := by
    rw [Scope.Binds, Scope.lookup?, Option.isSome_or, hname, Bool.or_true]
  params {name} hname := by
    rw [Scope.Binds, Scope.lookup?, Option.isSome_or, Bool.or_eq_true] at hname
    refine hname.symm.imp id fun hparam => ?_
    obtain ⟨⟨param, z⟩, hmem, heq⟩ := List.lookup_isSome_iff.1 hparam
    have hname : name ∈ f.params := eq_of_beq heq ▸ (List.of_mem_zip hmem).1
    exact List.mem_flatMap.2 ⟨f, hf, hname⟩

theorem level_le (fs : Functions) (s : Scope) : fs.level s ≤ fs.params.length :=
  List.length_filter_le _ _

theorem Extends.binds_iff (h : fs.Extends s s') (hlevel : fs.level s = fs.level s')
    (name : String) : s.Binds name ↔ s'.Binds name := by
  refine ⟨h.binds, fun hname => (h.params hname).elim id fun hparam => ?_⟩
  have hsublist : (fs.params.filter fun name => s.Binds name).Sublist
      (fs.params.filter fun name => s'.Binds name) := by
    apply List.monotone_filter_right
    intro name hname
    exact decide_eq_true (h.binds (of_decide_eq_true hname))
  have heq := hsublist.eq_of_length hlevel
  have hmem : name ∈ fs.params.filter fun name => s'.Binds name :=
    List.mem_filter.2 ⟨hparam, decide_eq_true hname⟩
  rw [← heq] at hmem
  exact of_decide_eq_true (List.mem_filter.1 hmem).2

end Functions

namespace Expr
variable {fs : Functions} {s : Scope} {e : Expr} {depth : Nat}

/-- The calls that are open at once, from the outermost: each by its overload and the level of the
scope that its body is evaluated in. No two of them are the same. -/
theorem Needs.exists_keys (h : Needs depth ⟨s, fs⟩ e) : ∃ keys : List (UserFunction × Nat),
    keys.length = depth ∧ keys.Nodup ∧ ∀ key ∈ keys, key.1 ∈ fs.all ∧
      ∃ s' depth', depth' < depth ∧ fs.Extends s s' ∧ fs.level s' = key.2 ∧
        Needs depth' ⟨s', fs⟩ key.1.body := by
  induction depth generalizing s e with
  | zero => exact ⟨[], rfl, .nil, nofun⟩
  | succ depth ih =>
    obtain ⟨f, hf, zs, hcall⟩ := h.exists_call
    have hframe := Functions.extends_frame hf zs s
    obtain ⟨keys, hlength, hnodup, hkeys⟩ := ih hcall
    refine ⟨(f, fs.level (.frame f.params zs s)) :: keys, congrArg (· + 1) hlength, ?_, ?_⟩
    · refine List.nodup_cons.2 ⟨fun hmem => ?_, hnodup⟩
      -- the same overload with the same names bound would need as many open calls
      obtain ⟨-, s', depth', hlt, hextends, hlevel, hneeds⟩ := hkeys _ hmem
      rw [← Scope.needs_iff (hextends.binds_iff hlevel.symm)] at hneeds
      exact Nat.ne_of_lt hlt (hneeds.unique hcall)
    · intro key hkey
      rcases List.mem_cons.1 hkey with rfl | hkey
      · exact ⟨hf, _, depth, Nat.lt_succ_self depth, hframe, rfl, hcall⟩
      · obtain ⟨hall, s', depth', hlt, hextends, hrest⟩ := hkeys key hkey
        exact ⟨hall, s', depth', Nat.lt_succ_of_lt hlt, hframe.trans hextends, hrest⟩

theorem Needs.le_callLimit (h : Needs depth ⟨s, fs⟩ e) : depth ≤ callLimit fs := by
  obtain ⟨keys, hlength, hnodup, hkeys⟩ := h.exists_keys
  have hsubset : keys ⊆ fs.all ×ˢ List.range (fs.params.length + 1) := by
    rintro ⟨f, level⟩ hkey
    obtain ⟨hf, s', -, -, -, rfl, -⟩ := hkeys _ hkey
    exact List.mem_product.2 ⟨hf, List.mem_range.2 (Nat.lt_succ_of_le (fs.level_le s'))⟩
  have hle := (hnodup.subperm hsubset).length_le
  rwa [hlength, List.length_product, List.length_range] at hle

theorem evalWithin_of_callLimit_le {env : Environment} (h : callLimit env.functions ≤ depth) :
    e.evalWithin depth env = e.eval env := by
  by_cases hends : e.evalWithin depth env = .error .tooDeep
  · by_contra hne
    have heval : e.eval env ≠ .error .tooDeep := fun heq => hne (hends.trans heq.symm)
    exact heval ((evalWithin_of_le heval h).symm.trans hends)
  · obtain ⟨least, hneeds⟩ := exists_needs hends
    rw [eval, evalWithin_of_le hneeds.ends hneeds.le_callLimit,
      evalWithin_of_le hneeds.ends (Nat.le_trans hneeds.le_callLimit h)]

theorem eval_eq_tooDeep_iff {env : Environment} :
    e.eval env = .error .tooDeep ↔ ∀ depth, e.evalWithin depth env = .error .tooDeep := by
  constructor
  · intro h depth
    by_contra hends
    have hlimit := evalWithin_of_callLimit_le (e := e)
      (Nat.le_max_left (callLimit env.functions) depth)
    rw [evalWithin_of_le hends (Nat.le_max_right _ _), h] at hlimit
    exact hends hlimit
  · intro h
    exact h (callLimit env.functions)

theorem eval_related {env env' : Environment} {e' : Expr}
    {R : Except Halt Number → Except Halt Number → Prop}
    (h : ∀ depth, R (e.evalWithin depth env) (e'.evalWithin depth env')) :
    R (e.eval env) (e'.eval env') := by
  have hlimit := h (max (callLimit env.functions) (callLimit env'.functions))
  rwa [evalWithin_of_callLimit_le (Nat.le_max_left _ _),
    evalWithin_of_callLimit_le (Nat.le_max_right _ _)] at hlimit

end Expr

end ComplexCalc
