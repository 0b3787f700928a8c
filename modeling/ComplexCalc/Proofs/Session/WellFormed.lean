import ComplexCalc.Proofs.Grammar.Leaves
import ComplexCalc.Proofs.Session.Run

/-! What holds of every session that lines lead to: all its names are words without another meaning,
and its overloads are what heads and bodies of definitions can be. -/

namespace ComplexCalc

structure UserFunction.WellFormed (f : UserFunction) (k : Nat) : Prop where
  arity : f.params.length = k
  nodup : f.params.Nodup
  params : ∀ p ∈ f.params, Token.IsName p
  body : f.body.Parsed

namespace Functions
variable {fs : Functions}

structure WellFormed (fs : Functions) : Prop where
  names : ∀ name ∈ fs, Token.IsName name
  inhabited : fs.Inhabited
  overloads : ∀ name k f, fs.overload? name k = some f → f.WellFormed k

theorem wellFormed_empty : WellFormed ∅ where
  names := by simp
  inhabited := inhabited_empty
  overloads := by
    intro name k f h
    cases h

theorem WellFormed.define (h : fs.WellFormed) {name : String} {f : UserFunction} {k : Nat}
    (hname : Token.IsName name) (hf : f.WellFormed k) : (fs.define name f).WellFormed where
  names := by
    intro name' hmem
    rcases Std.TreeMap.mem_insert.1 hmem with heq | hmem
    · exact Std.compare_eq_iff_eq.1 heq ▸ hname
    · exact h.names name' hmem
  inhabited := h.inhabited.define name f
  overloads := by
    intro name' k' f' hf'
    rw [overload?_define] at hf'
    split at hf'
    · rename_i heq
      cases hf'
      rwa [← heq.2, UserFunction.arity, hf.arity]
    · exact h.overloads name' k' f' hf'

end Functions

namespace Session

structure WellFormed (s : Session) : Prop where
  vars : ∀ name ∈ s.vars, Token.IsName name
  functions : s.functions.WellFormed

theorem wellFormed_start (diagnostics : Bool) : (start diagnostics).WellFormed where
  vars := by simp [start]
  functions := Functions.wellFormed_empty

namespace Step
variable {e : Step} {name : String} {k : Nat}

theorem Assigns.isName (h : e.Assigns name) : Token.IsName name := by
  obtain ⟨-, body, htokens⟩ := h
  exact (tokenize_eq_ok htokens).1 (.ident name) List.mem_cons_self

theorem Defines.wellFormed (h : e.Defines name k) : Token.IsName name ∧ ∃ f : UserFunction,
    f.WellFormed k ∧
      e.after = { e.before with functions := e.before.functions.define name f } := by
  obtain ⟨ps, body, tree, htokens, hnodup, hk, htree, hafter⟩ := h.after_eq
  -- the tokens of the line are those of the head, the equals sign and those of the body
  obtain ⟨hhead, hbody⟩ := List.forall_mem_append.1 (tokenize_eq_ok htokens).1
  have hparams : ∀ p ∈ ps, Token.IsName p := by
    intro p hp
    refine hhead (.ident p) (List.mem_cons_of_mem _ (List.mem_cons_of_mem _ ?_))
    exact List.mem_append_left _ (Line.mem_listing hp)
  have hparsed : tree.Parsed := (build_eq_ok_iff.1 htree).parsed (List.forall_mem_cons.1 hbody).2
  exact ⟨hhead (.ident name) List.mem_cons_self, ⟨ps, tree⟩, ⟨hk, hnodup, hparams, hparsed⟩, hafter⟩

theorem wellFormed_after (h : e.before.WellFormed) : e.after.WellFormed := by
  rcases e.after_cases with hafter | ⟨name, z, hassigns, hafter⟩ | ⟨name, f, hdefines, -⟩
  · rwa [hafter]
  · rw [hafter]
    refine ⟨fun name' hmem => ?_, h.functions⟩
    rcases Std.TreeMap.mem_insert.1 hmem with heq | hmem
    · exact Std.compare_eq_iff_eq.1 heq ▸ hassigns.isName
    · exact h.vars name' hmem
  · obtain ⟨hname, f, hf, hafter⟩ := hdefines.wellFormed
    rw [hafter]
    exact ⟨h.vars, h.functions.define hname hf⟩

end Step

theorem wellFormed_finish {s : Session} (h : s.WellFormed) (lines : List String) :
    (s.finish lines).WellFormed :=
  finish_induction (fun _ => Step.wellFormed_after) h lines

theorem Reachable.wellFormed {s : Session} (h : s.Reachable) : s.WellFormed := by
  obtain ⟨diagnostics, lines, rfl⟩ := h
  exact wellFormed_finish (wellFormed_start diagnostics) lines

/-- In every session that lines lead to, variables, functions and parameters have names of their
own, no name is left without an overload, and an overload has its number of parameters, all of them
distinct, and a body as texts have. -/
theorem bindings_wellFormed (diagnostics : Bool) (lines : List String) :
    ((start diagnostics).finish lines).WellFormed ∧
    (∀ (name : String) (overloads : Std.TreeMap Nat UserFunction),
      ((start diagnostics).finish lines).functions[name]? = some overloads →
      overloads.isEmpty = false) ∧
    ∀ name, Token.IsName name → (∀ f, (name, f) ∉ Builtin.names ∧ name ≠ f.name) ∧
      ∀ c, (name, c) ∉ Constant.names ∧ name ≠ c.name := by
  have hfinish := wellFormed_finish (wellFormed_start diagnostics) lines
  refine ⟨hfinish, fun name overloads h => hfinish.functions.inhabited.isEmpty_eq_false h, ?_⟩
  intro name hname
  refine ⟨fun f => ⟨hname.not_mem_builtins f, ?_⟩, fun c => ⟨hname.not_mem_constants c, ?_⟩⟩
  · rintro rfl
    exact hname.not_mem_builtins f (Token.mem_builtin_names f)
  · rintro rfl
    exact hname.not_mem_constants c (Token.mem_constant_names c)

end Session

end ComplexCalc
