import ComplexCalc.Proofs.Evaluation.Reach
import ComplexCalc.Proofs.Evaluation.Values
import ComplexCalc.Proofs.Session.Run

/-! A line of a session that binds nothing that a tree reaches leaves its value as it is. Only the
error of a name that is not bound at all can change, when it gets an overload of another arity. -/

namespace ComplexCalc

open Session Grammar

variable {tree : Expr} {e : Step} {name : String} {k : Nat}

theorem Session.Step.Assigns.eval_after (h : e.Assigns name)
    (hreach : ∀ k, ¬ tree.Reaches e.before.functions name k) :
    tree.eval e.after.environment = tree.eval e.before.environment := by
  obtain ⟨z, -, hafter⟩ := h.after_eq
  have hagree : AgreeOn (tree.Reaches e.before.functions) e.before.vars e.after.vars
      e.before.functions e.after.functions :=
    { vars := fun {name' k} hname => by
        rw [hafter, Std.TreeMap.getElem?_insert, if_neg]
        intro heq
        rw [Std.compare_eq_iff_eq.1 heq] at hreach
        exact hreach k hname
      overload := fun _ => by rw [hafter]
      hasName := fun _ => by rw [hafter] }
  exact hagree.eval_eq.symm

theorem Session.Step.Defines.eval_after (h : e.Defines name k)
    (hreach : ¬ tree.Reaches e.before.functions name k) :
    tree.eval e.after.environment = tree.eval e.before.environment ∨
    e.before.functions.hasName name = false ∧ ∃ j, tree.Reaches e.before.functions name j ∧
      tree.eval e.before.environment = .error (.failed (.unresolved name)) ∧
      tree.eval e.after.environment = .error (.failed (.noOverload name j)) := by
  obtain ⟨ps, body, tree', -, -, rfl, -, hafter⟩ := h.after_eq
  rw [hafter]
  exact Expr.eval_define hreach

/-- What a tree yields depends only on the variables and overloads of the calls that it reaches, and
on which of their names are functions; so does whether it ends. Assigning any other name changes
nothing. Defining any other overload changes nothing either, unless it is the first one of a name
that is reached: the error of that name is then that no overload fits. -/
theorem Session.eval_depends_on_reach (tree : Expr) :
    (∀ vars vars' fs fs', AgreeOn (tree.Reaches fs) vars vars' fs fs' →
      (∀ depth, tree.evalWithin depth (.global vars fs) =
        tree.evalWithin depth (.global vars' fs')) ∧
      tree.eval (.global vars fs) = tree.eval (.global vars' fs')) ∧
    (∀ (e : Step) (name : String), e.Assigns name →
      (∀ k, ¬ tree.Reaches e.before.functions name k) →
      tree.eval e.after.environment = tree.eval e.before.environment) ∧
    ∀ (e : Step) (name : String) (k : Nat), e.Defines name k →
      ¬ tree.Reaches e.before.functions name k →
      tree.eval e.after.environment = tree.eval e.before.environment ∨
      e.before.functions.hasName name = false ∧ ∃ j, tree.Reaches e.before.functions name j ∧
        tree.eval e.before.environment = .error (.failed (.unresolved name)) ∧
        tree.eval e.after.environment = .error (.failed (.noOverload name j)) := by
  refine ⟨fun vars vars' fs fs' h => ⟨h.evalWithin_eq, h.eval_eq⟩, ?_, ?_⟩
  · intro e name h hreach
    exact h.eval_after hreach
  · intro e name k h hreach
    exact h.eval_after hreach

def Session.shifted : Session :=
  ⟨(∅ : Variables).insert "x" .one,
    (∅ : Functions).define "g" ⟨["y"], .binary .add (.call "y" []) (.call "x" [])⟩, false⟩

def Expr.shift : Expr := .call "g" [.number .one]

theorem Expr.shift_reaches (h : shift.Reaches shifted.functions name k) :
    name = "g" ∧ k = 1 ∨ name = "y" ∨ name = "x" := by
  refine h.least (R := fun name k => name = "g" ∧ k = 1 ∨ name = "y" ∨ name = "x") ?_ ?_
  · simp [shift, CallsOnly, nodes, nodesAll]
  · intro name k f _ hf
    rw [shifted, Functions.overload?_define] at hf
    split at hf
    · cases hf
      intro name k hnode
      simp only [nodes, nodesAll, List.mem_cons, List.mem_append, List.not_mem_nil, or_false,
        reduceCtorEq, false_or, Node.call.injEq] at hnode
      exact .inr (hnode.imp And.left And.left)
    · cases hf

theorem Session.eval_shift :
    AgreeOn (Expr.shift.Reaches shifted.functions) shifted.vars (shifted.vars.insert "w" .two)
      shifted.functions (shifted.functions.define "h" ⟨[], .number .two⟩) ∧
    Expr.shift.eval (.global shifted.vars shifted.functions) = Expr.shift.eval
      (.global (shifted.vars.insert "w" .two)
        (shifted.functions.define "h" ⟨[], .number .two⟩)) ∧
    (⟨shifted, "w = 2"⟩ : Step).Assigns "w" ∧
    (∀ k, ¬ Expr.shift.Reaches shifted.functions "w" k) ∧
    Expr.shift.eval (⟨shifted, "w = 2"⟩ : Step).after.environment =
      Expr.shift.eval shifted.environment ∧
    (⟨shifted, "g(x, y) = x"⟩ : Step).Defines "g" 2 ∧
    ¬ Expr.shift.Reaches shifted.functions "g" 2 ∧
    Expr.shift.eval (⟨shifted, "g(x, y) = x"⟩ : Step).after.environment =
      Expr.shift.eval shifted.environment := by
  obtain ⟨hagree, hassign, hdefine⟩ := Session.eval_depends_on_reach Expr.shift
  have hnames (name : String) (k : Nat) (h : Expr.shift.Reaches shifted.functions name k) :
      name ≠ "w" ∧ name ≠ "h" := by
    rcases Expr.shift_reaches h with ⟨rfl, -⟩ | rfl | rfl <;> decide
  have hsame : AgreeOn (Expr.shift.Reaches shifted.functions) shifted.vars
      (shifted.vars.insert "w" .two) shifted.functions
      (shifted.functions.define "h" ⟨[], .number .two⟩) :=
    { vars := fun {name k} h => by
        rw [Std.TreeMap.getElem?_insert, if_neg]
        exact fun heq => (hnames name k h).1 (Std.compare_eq_iff_eq.1 heq).symm
      overload := fun {name k} h => by
        rw [Functions.overload?_define, if_neg]
        exact fun heq => (hnames name k h).2 heq.1.symm
      hasName := fun {name k} h => by
        rw [Functions.hasName_define, beq_false_of_ne (hnames name k h).2.symm, Bool.false_or] }
  have hassigns : (⟨shifted, "w = 2"⟩ : Step).Assigns "w" := by
    refine Step.assigns_iff.2 ⟨[.real 2], .number (.real 2), .real 2, by decide +kernel, ?_,
      Expr.eval_number _ _⟩
    exact .ofProduct (.ofPower (.ofAtom (.real 2)))
  have hdefines : (⟨shifted, "g(x, y) = x"⟩ : Step).Defines "g" 2 := by
    refine Step.defines_iff.2 ⟨["x", "y"], [.ident "x"], .call "x" [], by decide +kernel,
      by decide, rfl, ?_⟩
    exact .ofProduct (.ofPower (.ofAtom (.ident "x")))
  have hw (k : Nat) : ¬ Expr.shift.Reaches shifted.functions "w" k := fun h => (hnames _ _ h).1 rfl
  have hg : ¬ Expr.shift.Reaches shifted.functions "g" 2 := by
    intro h
    rcases Expr.shift_reaches h with ⟨-, hk⟩ | hname | hname
    · exact absurd hk (by decide)
    · exact absurd hname (by decide)
    · exact absurd hname (by decide)
  refine ⟨hsame, (hagree _ _ _ _ hsame).2, hassigns, hw, hassign _ _ hassigns hw, hdefines, hg, ?_⟩
  rcases hdefine _ _ _ hdefines hg with heq | ⟨hhas, -⟩
  · exact heq
  · exact absurd hhas (by decide +kernel)

/-- The overload of two parameters is not reached, but the error of the name changes. -/
theorem Session.error_of_first_overload :
    (⟨start false, "f(x, y) = x"⟩ : Step).Defines "f" 2 ∧
    ¬ (Expr.call "f" [.number .one]).Reaches (start false).functions "f" 2 ∧
    (Expr.call "f" [.number .one]).eval (⟨start false, "f(x, y) = x"⟩ : Step).before.environment =
      .error (.failed (.unresolved "f")) ∧
    (Expr.call "f" [.number .one]).eval (⟨start false, "f(x, y) = x"⟩ : Step).after.environment =
      .error (.failed (.noOverload "f" 1)) := by
  refine ⟨?_, ?_, by decide +kernel, by decide +kernel⟩
  · refine Step.defines_iff.2 ⟨["x", "y"], [.ident "x"], .call "x" [], by decide +kernel,
      by decide, rfl, ?_⟩
    exact .ofProduct (.ofPower (.ofAtom (.ident "x")))
  · intro h
    have hreach : "f" = "f" ∧ 2 = 1 := h.least (R := fun name k => name = "f" ∧ k = 1)
      (by simp [Expr.CallsOnly, Expr.nodes, Expr.nodesAll])
      (by rintro _ _ _ ⟨rfl, rfl⟩ hf; cases hf)
    exact absurd hreach.2 (by decide)

end ComplexCalc
