import ComplexCalc.Proofs.Evaluation.Failures
import ComplexCalc.Proofs.Evaluation.Reach
import Mathlib.Logic.Relation

/-! Trees from which no overload is reached that leads back to itself. Of the calls that are open at
once each leads to the next, so no two of them are of one overload, and there are never more of them
than there are overloads. -/

namespace ComplexCalc

namespace Functions
variable {fs : Functions} {name : String} {k : Nat}

def signatures (fs : Functions) : List (String × Nat) :=
  fs.toList.flatMap fun p => p.2.keys.map (p.1, ·)

theorem mem_signatures (h : (fs.overload? name k).isSome = true) : (name, k) ∈ fs.signatures := by
  obtain ⟨f, hf⟩ := Option.isSome_iff_exists.1 h
  obtain ⟨overloads, hname, hk⟩ := Option.bind_eq_some_iff.1 hf
  have hkey : k ∈ overloads.keys := by
    rw [Std.TreeMap.mem_keys, Std.TreeMap.mem_iff_isSome_getElem?, hk]
    rfl
  exact List.mem_flatMap.2 ⟨(name, overloads), Std.TreeMap.mem_toList_iff_getElem?_eq_some.2 hname,
    List.mem_map.2 ⟨k, hkey, rfl⟩⟩

theorem length_signatures (fs : Functions) : fs.signatures.length = fs.all.length := by
  have hlength (overloads : Std.TreeMap Nat UserFunction) :
      overloads.keys.length = overloads.values.length := by
    rw [Std.TreeMap.length_keys, values_eq_map_toList, List.length_map, Std.TreeMap.length_toList]
  simp only [signatures, all, values_eq_map_toList fs, List.flatMap_map, List.length_flatMap,
    List.length_map, hlength]

def Leads (fs : Functions) (p q : String × Nat) : Prop :=
  (∃ f, fs.overload? p.1 p.2 = some f ∧ .call q.1 q.2 ∈ f.body.nodes) ∧
    (fs.overload? q.1 q.2).isSome = true

end Functions

open Relation

namespace Expr
variable {fs : Functions} {e : Expr} {s : Scope} {name name' : String} {k k' depth : Nat}
  {f : UserFunction} {calls : List (String × Nat)}

def Acyclic (e : Expr) (fs : Functions) : Prop :=
  ∀ name k, e.Reaches fs name k → ¬ TransGen fs.Leads (name, k) (name, k)

theorem acyclic_of_rank (rank : String × Nat → Nat)
    (h : ∀ p q, fs.Leads p q → rank q < rank p) (e : Expr) : e.Acyclic fs := by
  intro name k _ hcycle
  have hdescends : ∀ q, TransGen fs.Leads (name, k) q → rank q < rank (name, k) := by
    intro q hq
    induction hq with
    | single hleads => exact h _ _ hleads
    | tail _ hleads ih => exact Nat.lt_trans (h _ _ hleads) ih
  exact Nat.lt_irrefl _ (hdescends _ hcycle)

/-- Calls of overloads, from the outermost on: the first one is in the tree, and each one after it
is in the body that the one before it enters. -/
inductive CallChain (fs : Functions) : Expr → List (String × Nat) → Prop
  | nil {e : Expr} : CallChain fs e []
  | cons {e : Expr} {name : String} {k : Nat} {f : UserFunction} {calls : List (String × Nat)} :
    .call name k ∈ e.nodes → fs.overload? name k = some f → CallChain fs f.body calls →
    CallChain fs e ((name, k) :: calls)

theorem exists_call_of_tooDeep (h : e.evalWithin depth ⟨s, fs⟩ = .error .tooDeep) :
    ∃ name k f, .call name k ∈ e.nodes ∧ fs.overload? name k = some f ∧
      ∃ zs, invokeWithin depth ⟨s, fs⟩ f zs = .error .tooDeep := by
  rw [evalWithin_eq] at h
  obtain ⟨node, hnode, hfails⟩ := exists_fails_of_evalWith h
  cases hfails with
  | overload hname hinvoke =>
    exact ⟨_, _, _, hnode, Environment.overload?_of_resolve hname, _, hinvoke⟩

theorem exists_callChain (h : e.evalWithin depth ⟨s, fs⟩ = .error .tooDeep) :
    ∃ calls, CallChain fs e calls ∧ calls.length = depth + 1 := by
  induction depth generalizing s e with
  | zero =>
    obtain ⟨name, k, f, hcall, hf, -⟩ := exists_call_of_tooDeep h
    exact ⟨[(name, k)], .cons hcall hf .nil, rfl⟩
  | succ depth ih =>
    obtain ⟨name, k, f, hcall, hf, zs, hinvoke⟩ := exists_call_of_tooDeep h
    obtain ⟨calls, hcalls, hlength⟩ := ih hinvoke
    exact ⟨(name, k) :: calls, .cons hcall hf hcalls, congrArg (· + 1) hlength⟩

theorem Reaches.of_body (hcall : e.Reaches fs name k) (hf : fs.overload? name k = some f)
    (h : f.body.Reaches fs name' k') : e.Reaches fs name' k' := by
  induction h with
  | own hnode => exact .body hcall hf hnode
  | body _ hf' hnode ih => exact .body ih hf' hnode

theorem Acyclic.of_body (h : e.Acyclic fs) (hcall : .call name k ∈ e.nodes)
    (hf : fs.overload? name k = some f) : f.body.Acyclic fs :=
  fun name' k' hreach => h name' k' (.of_body (.own hcall) hf hreach)

theorem CallChain.transGen (hf : fs.overload? name k = some f) (h : CallChain fs f.body calls) :
    ∀ call ∈ calls, TransGen fs.Leads (name, k) call := by
  generalize hbody : f.body = body at h
  induction h generalizing name k f with
  | nil => nofun
  | cons hcall hf' _ ih =>
    subst hbody
    have hleads : fs.Leads (name, k) (_, _) := ⟨⟨f, hf, hcall⟩, Option.isSome_of_eq_some hf'⟩
    refine List.forall_mem_cons.2 ⟨.single hleads, fun call hmem => ?_⟩
    exact .head hleads (ih hf' rfl call hmem)

theorem CallChain.nodup (h : CallChain fs e calls) (hacyclic : e.Acyclic fs) : calls.Nodup := by
  induction h with
  | nil => exact .nil
  | cons hcall hf hcalls ih =>
    refine List.nodup_cons.2 ⟨fun hmem => ?_, ih (hacyclic.of_body hcall hf)⟩
    exact hacyclic _ _ (.own hcall) (hcalls.transGen hf _ hmem)

theorem CallChain.subset_signatures (h : CallChain fs e calls) : calls ⊆ fs.signatures := by
  induction h with
  | nil => exact List.nil_subset _
  | cons _ hf _ ih =>
    exact List.cons_subset.2 ⟨Functions.mem_signatures (Option.isSome_of_eq_some hf), ih⟩

theorem CallChain.length_le (h : CallChain fs e calls) (hacyclic : e.Acyclic fs) :
    calls.length ≤ fs.all.length := by
  rw [← fs.length_signatures]
  exact ((h.nodup hacyclic).subperm h.subset_signatures).length_le

theorem evalWithin_of_acyclic (h : e.Acyclic fs) (s : Scope) :
    e.evalWithin fs.all.length ⟨s, fs⟩ ≠ .error .tooDeep := by
  intro htooDeep
  obtain ⟨calls, hcalls, hlength⟩ := exists_callChain htooDeep
  have hle := hcalls.length_le h
  omega

/-- If no overload that a tree reaches leads back to itself, the tree has a value or an error, and
no more calls are ever open at once than there are overloads. -/
theorem eval_of_acyclic (h : e.Acyclic fs) (vars : Variables) :
    ((∃ z, e.eval (.global vars fs) = .ok z) ∨
      ∃ err, e.eval (.global vars fs) = .error (.failed err)) ∧
    ∃ depth ≤ fs.all.length, e.Needs depth (.global vars fs) ∧
      e.evalWithin depth (.global vars fs) = e.eval (.global vars fs) := by
  have hends : e.evalWithin fs.all.length (.global vars fs) ≠ .error .tooDeep :=
    evalWithin_of_acyclic h (.globals vars)
  obtain ⟨depth, hneeds⟩ := exists_needs hends
  have hle : depth ≤ fs.all.length := by
    by_contra hlt
    exact hends (hneeds.least _ (Nat.lt_of_not_le hlt))
  have heval : e.eval (.global vars fs) = e.evalWithin depth (.global vars fs) :=
    evalWithin_of_le hneeds.ends hneeds.le_callLimit
  refine ⟨?_, depth, hle, hneeds, heval.symm⟩
  cases hresult : e.eval (.global vars fs) with
  | ok z => exact .inl ⟨z, rfl⟩
  | error halt =>
    cases halt with
    | failed err => exact .inr ⟨err, rfl⟩
    | tooDeep => exact absurd (heval.symm.trans hresult) hneeds.ends

def powers : Functions :=
  ((∅ : Functions).define "sq" ⟨["x"], .binary .mul (.call "x" []) (.call "x" [])⟩).define
    "quad" ⟨["x"], .call "sq" [.call "sq" [.call "x" []]]⟩

theorem acyclic_powers (e : Expr) : e.Acyclic powers := by
  refine acyclic_of_rank (fun p => if p.1 = "quad" then 2 else if p.1 = "sq" then 1 else 0) ?_ e
  rintro ⟨name, k⟩ ⟨name', k'⟩ ⟨⟨f, hf, hcall⟩, -⟩
  rw [powers, Functions.overload?_define, Functions.overload?_define] at hf
  split at hf
  · rename_i hquad
    obtain ⟨rfl, -⟩ := hquad
    cases hf
    have hcalls : name' = "sq" ∧ k' = 1 ∨ name' = "x" ∧ k' = 0 := by
      simpa [nodes, nodesAll] using hcall
    rcases hcalls with ⟨rfl, -⟩ | ⟨rfl, -⟩ <;> simp
  · split at hf
    · rename_i hsq
      obtain ⟨rfl, -⟩ := hsq
      cases hf
      have hcalls : name' = "x" ∧ k' = 0 := by simpa [nodes, nodesAll] using hcall
      obtain ⟨rfl, -⟩ := hcalls
      simp
    · cases hf

theorem eval_of_acyclic_powers : (Expr.call "quad" [.constant .i]).Acyclic powers ∧
    ((∃ z, (Expr.call "quad" [.constant .i]).eval (.global ∅ powers) = .ok z) ∨
      ∃ err, (Expr.call "quad" [.constant .i]).eval (.global ∅ powers) = .error (.failed err)) ∧
    ∃ depth ≤ powers.all.length, (Expr.call "quad" [.constant .i]).Needs depth (.global ∅ powers) ∧
      (Expr.call "quad" [.constant .i]).evalWithin depth (.global ∅ powers) =
        (Expr.call "quad" [.constant .i]).eval (.global ∅ powers) :=
  ⟨acyclic_powers _, eval_of_acyclic (acyclic_powers _) ∅⟩

end Expr

end ComplexCalc
