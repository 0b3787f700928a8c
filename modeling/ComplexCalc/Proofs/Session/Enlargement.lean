import ComplexCalc.Proofs.Evaluation.Enlargement
import ComplexCalc.Proofs.Session.ReadBack
import ComplexCalc.Proofs.Session.Run

/-! Lines that only add bindings to a session. An expression that has had a value keeps it. -/

namespace ComplexCalc.Session

/-- Whether a step binds nothing but names that a session neither has as variables nor as functions,
and overloads that the session does not have. -/
structure Step.AddsTo (e : Step) (s : Session) : Prop where
  assigns {name : String} : e.Assigns name → name ∉ s.vars ∧ s.functions.hasName name = false
  defines {name : String} {k : Nat} : e.Defines name k → s.functions.overload? name k = none

variable {s t : Session} {e : Step} {line : String} {ts : List Token} {z : Number}

def Enlarges (s t : Session) : Prop := Enlarged s.vars t.vars s.functions t.functions

theorem Enlarges.refl (s : Session) : s.Enlarges s := Enlarged.refl s.vars s.functions

theorem Enlarges.after (h : s.Enlarges e.before) (hadds : e.AddsTo s) : s.Enlarges e.after := by
  rcases e.after_cases with hafter | ⟨name, z, hassigns, hafter⟩ | ⟨name, f, hdefines, hafter⟩
  · rwa [hafter]
  · obtain ⟨hnot, hname⟩ := hadds.assigns hassigns
    rw [hafter]
    exact h.insert hnot hname z
  · rw [hafter]
    exact h.define (hadds.defines hdefines)

theorem Enlarges.finish {lines : List String} (h : s.Enlarges t)
    (hadds : ∀ e ∈ t.steps lines, e.AddsTo s) : s.Enlarges (t.finish lines) := by
  induction lines generalizing t with
  | nil => exact h
  | cons line lines ih =>
    rw [steps, List.forall_mem_cons] at hadds
    exact ih (h.after (e := ⟨t, line⟩) hadds.1) hadds.2

theorem process_eq_value_iff (hline : tokenize line = .ok ts) (hno : .equals ∉ ts) :
    s.process line = (.ok (.value z), s) ↔
      ∃ tree, Grammar.IsSum ts tree ∧ tree.eval s.environment = .ok z := by
  rw [← answers_value_iff_of_not_mem hline hno, process_of_not_mem hline hno, Prod.mk.injEq,
    and_iff_left rfl]

/-- New bindings change no value: a tree that has a value keeps it if there are more variables and
overloads, as long as none of the new variables is the name of a function that was there. So an
expression of a session answers the same value after lines that only add bindings. -/
theorem values_kept :
    (∀ (tree : Expr) (vars vars' : Variables) (fs fs' : Functions),
      Enlarged vars vars' fs fs' →
      (∀ depth z, tree.evalWithin depth (.global vars fs) = .ok z →
        tree.evalWithin depth (.global vars' fs') = .ok z) ∧
      ∀ z, tree.eval (.global vars fs) = .ok z → tree.eval (.global vars' fs') = .ok z) ∧
    ∀ (s : Session) (line : String) (ts : List Token) (z : Number),
      tokenize line = .ok ts → .equals ∉ ts → (s.process line).1 = .ok (.value z) →
      ∀ lines, (∀ e ∈ (s.process line).2.steps lines, e.AddsTo (s.process line).2) →
        ((s.process line).2.finish lines).process line =
          (.ok (.value z), (s.process line).2.finish lines) := by
  refine ⟨fun tree vars vars' fs fs' h => ⟨fun depth z => h.evalWithin_eq_ok, fun z =>
    h.eval_eq_ok⟩, ?_⟩
  intro s line ts z hline hno hz lines hadds
  have hidle : (s.process line).2 = s := Step.Idle.after_eq (e := ⟨s, line⟩) (.inr ⟨ts, hline, hno⟩)
  rw [hidle] at hadds ⊢
  obtain ⟨tree, htree, hvalue⟩ := (process_eq_value_iff hline hno).1 (Prod.ext hz hidle)
  have hkept := ((Enlarges.refl s).finish hadds).eval_eq_ok hvalue
  exact process_expression hline hno htree hkept

def successor : Session :=
  ⟨(∅ : Variables).insert "x" .one,
    (∅ : Functions).define "f" ⟨["y"], .binary .add (.call "y" []) (.call "x" [])⟩, false⟩

theorem successor_adds (e : Step) (h : e ∈ successor.steps ["y = f(0)", "f(x, y) = y"]) :
    e.AddsTo successor := by
  have hassignment : tokenize "y = f(0)" =
    .ok [.ident "y", .equals, .ident "f", .lparen, .real 0, .rparen] := by decide +kernel
  have hdefinition : tokenize "f(x, y) = y" =
    .ok (Line.heading "f" ["x", "y"] ++ .equals :: [.ident "y"]) := by decide +kernel
  rcases List.mem_pair.1 h with rfl | rfl
  · refine ⟨?_, ?_⟩
    · rintro name ⟨-, body, htokens⟩
      cases hassignment.symm.trans htokens
      exact ⟨by decide +kernel, by decide +kernel⟩
    · rintro name k ⟨-, ps, body, htokens, -⟩
      cases hassignment.symm.trans htokens
  · refine ⟨?_, ?_⟩
    · rintro name ⟨-, body, htokens⟩
      cases hdefinition.symm.trans htokens
    · rintro name k ⟨-, ps, body, htokens, rfl⟩
      obtain ⟨rfl, rfl⟩ :=
        Line.heading_append_injective (Except.ok.inj (hdefinition.symm.trans htokens))
      decide +kernel

theorem values_kept_successor :
    Enlarged successor.vars (successor.vars.insert "y" .two) successor.functions
      (successor.functions.define "f" ⟨[], .call "y" []⟩) ∧
    (Expr.call "f" [.number .zero]).eval successor.environment = .ok .one ∧
    (Expr.call "f" [.number .zero]).eval (.global (successor.vars.insert "y" .two)
      (successor.functions.define "f" ⟨[], .call "y" []⟩)) = .ok .one ∧
    tokenize "f(0)" = .ok [.ident "f", .lparen, .real 0, .rparen] ∧
    .equals ∉ [Token.ident "f", .lparen, .real 0, .rparen] ∧
    (successor.process "f(0)").1 = .ok (.value .one) ∧
    (∀ e ∈ (successor.process "f(0)").2.steps ["y = f(0)", "f(x, y) = y"],
      e.AddsTo (successor.process "f(0)").2) ∧
    ((successor.process "f(0)").2.finish ["y = f(0)", "f(x, y) = y"]).process "f(0)" =
      (.ok (.value .one), (successor.process "f(0)").2.finish ["y = f(0)", "f(x, y) = y"]) := by
  have henlarged : Enlarged successor.vars (successor.vars.insert "y" .two) successor.functions
      (successor.functions.define "f" ⟨[], .call "y" []⟩) :=
    ((Enlarged.refl _ _).insert (by decide +kernel) (by decide +kernel) .two).define
      (by decide +kernel)
  have hvalue : (Expr.call "f" [.number .zero]).eval successor.environment = .ok .one := by
    decide +kernel
  have hline : tokenize "f(0)" = .ok [.ident "f", .lparen, .real 0, .rparen] := by decide +kernel
  have hno : .equals ∉ [Token.ident "f", .lparen, .real 0, .rparen] := by decide
  have hsum : Grammar.IsSum [.ident "f", .lparen, .real 0, .rparen] (.call "f" [.number .zero]) :=
    .ofProduct (.ofPower (.ofAtom (.call "f" (.one (.ofProduct (.ofPower (.ofAtom (.real 0))))))))
  have hprocess := (process_eq_value_iff hline hno).2 ⟨_, hsum, hvalue⟩
  have hanswer := congrArg Prod.fst hprocess
  have hadds : ∀ e ∈ (successor.process "f(0)").2.steps ["y = f(0)", "f(x, y) = y"],
      e.AddsTo (successor.process "f(0)").2 := by
    rw [hprocess]
    exact successor_adds
  exact ⟨henlarged, hvalue, (values_kept.1 _ _ _ _ _ henlarged).2 _ hvalue, hline, hno, hanswer,
    hadds, values_kept.2 _ _ _ _ hline hno hanswer _ hadds⟩

end ComplexCalc.Session
