import ComplexCalc.Proofs.Session.Step
import Mathlib.Data.List.Basic

/-! Runs of a session: what the lines of a run leave bound, and which lines a run can do without. -/

namespace ComplexCalc.Session
open Grammar

structure Step where
  before : Session
  line : String

namespace Step

def answer (e : Step) : Except Error Reply := (e.before.process e.line).1

def after (e : Step) : Session := (e.before.process e.line).2

def Succeeds (e : Step) : Prop := ∃ r, e.answer = .ok r

def Assigns (name : String) (e : Step) : Prop :=
  e.Succeeds ∧ ∃ body, tokenize e.line = .ok (.ident name :: .equals :: body)

def Defines (name : String) (k : Nat) (e : Step) : Prop :=
  e.Succeeds ∧ ∃ ps body, tokenize e.line = .ok (Line.heading name ps ++ .equals :: body) ∧
    ps.length = k

def Idle (e : Step) : Prop :=
  ¬ e.Succeeds ∨ ∃ ts, tokenize e.line = .ok ts ∧ .equals ∉ ts

variable {e : Step} {name : String} {k : Nat}

theorem answer_eq (e : Step) : e.answer = (e.before.attempt e.line).map Prod.fst :=
  process_fst e.before e.line

theorem succeeds_iff : e.Succeeds ↔ ∃ r, e.before.attempt e.line = .ok (r, e.after) := by
  rw [Succeeds, answer_eq, after, process]
  cases e.before.attempt e.line with
  | error err => simp [Except.map]
  | ok p => exact ⟨fun _ => ⟨p.1, rfl⟩, fun _ => ⟨p.1, rfl⟩⟩

theorem after_of_not_succeeds (h : ¬ e.Succeeds) : e.after = e.before := by
  rw [Succeeds, answer_eq] at h
  rw [after, process]
  cases hattempt : e.before.attempt e.line with
  | error err => rfl
  | ok p =>
    rw [hattempt] at h
    exact absurd ⟨_, rfl⟩ h

theorem Idle.after_eq (h : e.Idle) : e.after = e.before := by
  rcases h with hs | ⟨ts, hts, hno⟩
  · exact after_of_not_succeeds hs
  · rw [after, process_of_not_mem hts hno]

theorem Idle.not_assigns (h : e.Idle) : ¬ e.Assigns name := by
  rintro ⟨hs, body, htokens⟩
  rcases h with hno | ⟨ts, hts, hno⟩
  · exact hno hs
  · cases hts.symm.trans htokens
    simp at hno

theorem answer_of_assignment {body : List Token}
    (h : tokenize e.line = .ok (.ident name :: .equals :: body)) :
    e.answer = (e.before.evaluate body).map .value := by
  rw [answer_eq, attempt_assigns h]
  cases e.before.evaluate body <;> rfl

theorem answer_of_assignment_iff {body : List Token} {z : Number}
    (h : tokenize e.line = .ok (.ident name :: .equals :: body)) : e.answer = .ok (.value z) ↔
      ∃ tree, IsSum body tree ∧ tree.eval e.before.environment = .ok z := by
  rw [answer_of_assignment h, map_eq_ok_iff, ← evaluate_eq_ok_iff]
  constructor
  · rintro ⟨z', hz, hreply⟩
    cases hreply
    exact hz
  · exact fun hz => ⟨z, hz, rfl⟩

theorem Assigns.after_eq (h : e.Assigns name) : ∃ z, e.answer = .ok (.value z) ∧
    e.after = { e.before with vars := e.before.vars.insert name z } := by
  obtain ⟨hs, body, hbody⟩ := h
  obtain ⟨r, hr⟩ := hs
  have hanswer := hr
  rw [answer_of_assignment hbody, map_eq_ok_iff] at hanswer
  obtain ⟨z, hz, rfl⟩ := hanswer
  refine ⟨z, hr, ?_⟩
  rw [after, process, attempt_assigns hbody, hz]
  rfl

theorem Defines.after_eq (h : e.Defines name k) : ∃ ps body tree,
    tokenize e.line = .ok (Line.heading name ps ++ .equals :: body) ∧ ps.Nodup ∧ ps.length = k ∧
    e.before.build body = .ok tree ∧
    e.after = { e.before with functions := e.before.functions.define name ⟨ps, tree⟩ } := by
  obtain ⟨hs, ps, body, htokens, hk⟩ := h
  obtain ⟨r, hr⟩ := succeeds_iff.1 hs
  have hattempt := hr
  rw [attempt_definition htokens Line.equals_not_mem_heading Line.length_heading_ne_one,
    map_eq_ok_iff] at hattempt
  obtain ⟨s, hdefine, -⟩ := hattempt
  -- that the parameters are distinct is only known from the success of the line
  obtain ⟨name', ps', hps', hheading⟩ := define_eq_ok hdefine
  obtain ⟨rfl, rfl⟩ := Line.heading_injective hheading
  rw [define_heading hps', map_eq_ok_iff] at hdefine
  obtain ⟨tree, htree, rfl⟩ := hdefine
  refine ⟨ps, body, tree, htokens, hps', hk, htree, ?_⟩
  rw [after, process, attempt_defines htokens hps', htree]
  rfl

theorem assigns_iff : e.Assigns name ↔ ∃ body tree z,
    tokenize e.line = .ok (.ident name :: .equals :: body) ∧ IsSum body tree ∧
      tree.eval e.before.environment = .ok z := by
  constructor
  · intro h
    obtain ⟨z, hz, -⟩ := h.after_eq
    obtain ⟨-, body, htokens⟩ := h
    obtain ⟨tree, htree, hvalue⟩ := (answer_of_assignment_iff htokens).1 hz
    exact ⟨body, tree, z, htokens, htree, hvalue⟩
  · rintro ⟨body, tree, z, htokens, htree, hvalue⟩
    exact ⟨⟨_, (answer_of_assignment_iff htokens).2 ⟨tree, htree, hvalue⟩⟩, body, htokens⟩

theorem defines_iff : e.Defines name k ↔ ∃ ps body tree,
    tokenize e.line = .ok (Line.heading name ps ++ .equals :: body) ∧ ps.Nodup ∧ ps.length = k ∧
      IsSum body tree := by
  constructor
  · intro h
    obtain ⟨ps, body, tree, htokens, hps, hk, htree, -⟩ := h.after_eq
    exact ⟨ps, body, tree, htokens, hps, hk, build_eq_ok_iff.1 htree⟩
  · rintro ⟨ps, body, tree, htokens, hps, hk, htree⟩
    refine ⟨⟨.defined, ?_⟩, ps, body, htokens, hk⟩
    rw [answer_eq, attempt_defines htokens hps, build_eq_ok_iff.2 htree]
    rfl

theorem Assigns.vars_after (h : e.Assigns name) :
    ∃ z, e.answer = .ok (.value z) ∧ e.after.vars[name]? = some z := by
  obtain ⟨z, hz, hafter⟩ := h.after_eq
  refine ⟨z, hz, ?_⟩
  rw [hafter, Std.TreeMap.getElem?_insert_self]

theorem Defines.overload?_after (h : e.Defines name k) : ∃ ps body tree,
    tokenize e.line = .ok (Line.heading name ps ++ .equals :: body) ∧ ps.length = k ∧
    e.before.build body = .ok tree ∧ e.after.functions.overload? name k = some ⟨ps, tree⟩ := by
  obtain ⟨ps, body, tree, htokens, -, hk, htree, hafter⟩ := h.after_eq
  refine ⟨ps, body, tree, htokens, hk, htree, ?_⟩
  rw [hafter, Functions.overload?_define, if_pos ⟨rfl, hk⟩]

theorem after_cases (e : Step) : e.after = e.before ∨
    (∃ name z, e.Assigns name ∧
      e.after = { e.before with vars := e.before.vars.insert name z }) ∨
    ∃ name f, e.Defines name f.arity ∧
      e.after = { e.before with functions := e.before.functions.define name f } := by
  by_cases hs : e.Succeeds
  · obtain ⟨r, hr⟩ := succeeds_iff.1 hs
    obtain ⟨ts, hts, ⟨-, -, hafter⟩ | ⟨name, body, z, rfl, -, -, hafter⟩ |
      ⟨name, ps, body, tree, rfl, -, -, -, hafter⟩⟩ := attempt_eq_ok hr
    · exact .inl hafter
    · exact .inr (.inl ⟨name, z, ⟨hs, body, hts⟩, hafter⟩)
    · exact .inr (.inr ⟨name, ⟨ps, tree⟩, ⟨hs, ps, body, hts, rfl⟩, hafter⟩)
  · exact .inl (after_of_not_succeeds hs)

theorem vars_after_of_not_assigns (h : ¬ e.Assigns name) :
    e.after.vars[name]? = e.before.vars[name]? := by
  rcases e.after_cases with hafter | ⟨name', z, hassigns, hafter⟩ | ⟨name', f, -, hafter⟩
  · rw [hafter]
  · have hne : name' ≠ name := by
      rintro rfl
      exact h hassigns
    rw [hafter, Std.TreeMap.getElem?_insert, if_neg (mt Std.compare_eq_iff_eq.1 hne)]
  · rw [hafter]

theorem overload?_after_of_not_defines (h : ¬ e.Defines name k) :
    e.after.functions.overload? name k = e.before.functions.overload? name k := by
  rcases e.after_cases with hafter | ⟨name', z, -, hafter⟩ | ⟨name', f, hdefines, hafter⟩
  · rw [hafter]
  · rw [hafter]
  · have hne : ¬ (name' = name ∧ f.arity = k) := by
      rintro ⟨rfl, rfl⟩
      exact h hdefines
    rw [hafter, Functions.overload?_define, if_neg hne]

theorem inhabited_after (h : e.before.functions.Inhabited) : e.after.functions.Inhabited := by
  rcases e.after_cases with hafter | ⟨name', z, -, hafter⟩ | ⟨name', f, -, hafter⟩
  · rwa [hafter]
  · rwa [hafter]
  · rw [hafter]
    exact h.define name' f

theorem diagnostics_after (e : Step) : e.after.diagnostics = e.before.diagnostics := by
  rcases e.after_cases with hafter | ⟨_, _, -, hafter⟩ | ⟨_, _, -, hafter⟩ <;> rw [hafter]

end Step

def steps (s : Session) : List String → List Step
  | [] => []
  | line :: lines => ⟨s, line⟩ :: steps (s.process line).2 lines

def finish (s : Session) : List String → Session
  | [] => s
  | line :: lines => finish (s.process line).2 lines

def Reachable (s : Session) : Prop := ∃ diagnostics lines, s = (start diagnostics).finish lines

/-- `e` is the last of the steps with a property. -/
def IsLast (P : Step → Prop) (es : List Step) (e : Step) : Prop :=
  ∃ earlier later, es = earlier ++ e :: later ∧ P e ∧ ∀ e' ∈ later, ¬ P e'

/-- The second run is the first one without some of its idle steps. -/
inductive Thinned : List Step → List Step → Prop
  | nil : Thinned [] []
  | keep (e : Step) {es kept : List Step} : Thinned es kept → Thinned (e :: es) (e :: kept)
  | drop {e : Step} {es kept : List Step} : e.Idle → Thinned es kept → Thinned (e :: es) kept

variable {P : Step → Prop} {e e' : Step} {es kept : List Step}

theorem isLast_cons_iff : IsLast P (e :: es) e' ↔
    IsLast P es e' ∨ (e' = e ∧ P e ∧ ∀ x ∈ es, ¬ P x) := by
  constructor
  · rintro ⟨earlier, later, heq, hP, hlater⟩
    cases earlier with
    | nil =>
      obtain ⟨rfl, rfl⟩ := List.cons.inj heq
      exact .inr ⟨rfl, hP, hlater⟩
    | cons x earlier => exact .inl ⟨earlier, later, (List.cons.inj heq).2, hP, hlater⟩
  · rintro (⟨earlier, later, rfl, hP, hlater⟩ | ⟨rfl, hP, hall⟩)
    · exact ⟨e :: earlier, later, rfl, hP, hlater⟩
    · exact ⟨[], es, rfl, hP, hall⟩

theorem exists_isLast_iff : (∃ e, IsLast P es e) ↔ ∃ e ∈ es, P e := by
  induction es with
  | nil => simp [IsLast]
  | cons x es ih =>
    simp only [isLast_cons_iff, List.mem_cons, exists_eq_or_imp, exists_or, ih]
    constructor
    · rintro (h | ⟨_, rfl, hx, -⟩)
      · exact .inr h
      · exact .inl hx
    · intro h
      by_cases hes : ∃ e ∈ es, P e
      · exact .inl hes
      · exact .inr ⟨x, rfl, h.resolve_right hes, fun y hy hP => hes ⟨y, hy, hP⟩⟩

section Readings
-- a reading of a session that only the steps with the property may change
variable {α : Type} (read : Session → Option α) {s : Session} {lines : List String}

theorem read_finish_of_none (hread : ∀ e : Step, ¬ P e → read e.after = read e.before)
    (h : ∀ e ∈ s.steps lines, ¬ P e) : read (s.finish lines) = read s := by
  induction lines generalizing s with
  | nil => rfl
  | cons line lines ih =>
    rw [steps, List.forall_mem_cons] at h
    rw [finish, ih h.2]
    exact hread ⟨s, line⟩ h.1

theorem read_finish_of_isLast (hread : ∀ e : Step, ¬ P e → read e.after = read e.before)
    (h : IsLast P (s.steps lines) e) : read (s.finish lines) = read e.after := by
  induction lines generalizing s with
  | nil =>
    obtain ⟨earlier, later, heq, -⟩ := h
    rw [steps] at heq
    simp at heq
  | cons line lines ih =>
    rcases isLast_cons_iff.1 h with h | ⟨rfl, -, hnone⟩
    · exact ih h
    · exact read_finish_of_none read hread hnone

theorem isSome_read_finish_iff (hread : ∀ e : Step, ¬ P e → read e.after = read e.before)
    (hsome : ∀ e : Step, P e → (read e.after).isSome = true) (hstart : read s = none) :
    (read (s.finish lines)).isSome = true ↔ ∃ e ∈ s.steps lines, P e := by
  constructor
  · intro h
    by_contra hnone
    rw [read_finish_of_none read hread fun e he hP => hnone ⟨e, he, hP⟩, hstart] at h
    cases h
  · intro h
    obtain ⟨e, he⟩ := exists_isLast_iff.2 h
    rw [read_finish_of_isLast read hread he]
    obtain ⟨-, -, -, hP, -⟩ := he
    exact hsome e hP

end Readings

theorem map_line_steps (s : Session) (lines : List String) :
    (s.steps lines).map Step.line = lines := by
  induction lines generalizing s with
  | nil => rfl
  | cons line lines ih => exact congrArg (line :: ·) (ih _)

theorem finish_induction {I : Session → Prop} (hstep : ∀ e : Step, I e.before → I e.after)
    {s : Session} (h : I s) (lines : List String) : I (s.finish lines) := by
  induction lines generalizing s with
  | nil => exact h
  | cons line lines ih => exact ih (hstep ⟨s, line⟩ h)

theorem inhabited_finish {s : Session} (h : s.functions.Inhabited) (lines : List String) :
    (s.finish lines).functions.Inhabited :=
  finish_induction (I := (·.functions.Inhabited)) (fun _ h => Step.inhabited_after h) h lines

theorem thinned_run {s : Session} {lines : List String} (h : Thinned (s.steps lines) kept) :
    s.steps (kept.map Step.line) = kept ∧ s.finish (kept.map Step.line) = s.finish lines := by
  induction lines generalizing s kept with
  | nil =>
    cases h
    exact ⟨rfl, rfl⟩
  | cons line lines ih =>
    cases h with
    | @keep _ _ kept h =>
      obtain ⟨hsteps, hfinish⟩ := ih h
      exact ⟨congrArg (Step.mk s line :: ·) hsteps, hfinish⟩
    | drop hidle h =>
      -- the lines after an idle one meet the session that it met
      have hafter : (s.process line).2 = s := hidle.after_eq
      rw [hafter] at h
      rw [finish, hafter]
      exact ih h

theorem diagnostics_of_mem_steps {s : Session} {lines : List String} (h : e ∈ s.steps lines) :
    e.before.diagnostics = s.diagnostics := by
  induction lines generalizing s with
  | nil => cases h
  | cons line lines ih =>
    rcases List.mem_cons.1 h with rfl | h
    · rfl
    · rw [ih h]
      exact Step.diagnostics_after ⟨s, line⟩

theorem diagnostics_finish (s : Session) (lines : List String) :
    (s.finish lines).diagnostics = s.diagnostics :=
  finish_induction (I := (·.diagnostics = s.diagnostics)) (fun e h => e.diagnostics_after.trans h)
    rfl lines

structure BindsLast (es : List Step) (s : Session) : Prop where
  vars (name : String) : name ∈ s.vars ↔ ∃ e ∈ es, e.Assigns name
  value {name : String} {e : Step} : IsLast (Step.Assigns name) es e →
    ∃ z, e.answer = .ok (.value z) ∧ s.vars[name]? = some z
  names (name : String) : s.functions.hasName name = true ↔
    ∃ k, (s.functions.overload? name k).isSome = true
  overloads (name : String) (k : Nat) :
    (s.functions.overload? name k).isSome = true ↔ ∃ e ∈ es, e.Defines name k
  overload {name : String} {k : Nat} {e : Step} : IsLast (Step.Defines name k) es e →
    ∃ ps body tree, tokenize e.line = .ok (Line.heading name ps ++ .equals :: body) ∧
      ps.length = k ∧ Expr.ofTokens s.diagnostics body = .ok tree ∧
      s.functions.overload? name k = some ⟨ps, tree⟩

theorem bindsLast_finish (diagnostics : Bool) (lines : List String) :
    BindsLast ((start diagnostics).steps lines) ((start diagnostics).finish lines) where
  vars name := by
    rw [Std.TreeMap.mem_iff_isSome_getElem?]
    apply isSome_read_finish_iff (·.vars[name]?)
    · exact fun e h => Step.vars_after_of_not_assigns h
    · intro e h
      obtain ⟨z, -, hz⟩ := h.vars_after
      rw [hz]
      rfl
    · rfl
  value {name e} h := by
    have hread := read_finish_of_isLast (·.vars[name]?)
      (fun e h => Step.vars_after_of_not_assigns h) h
    obtain ⟨-, -, -, hassigns, -⟩ := h
    obtain ⟨z, hanswer, hz⟩ := hassigns.vars_after
    exact ⟨z, hanswer, hread.trans hz⟩
  names name := by
    constructor
    · exact inhabited_finish Functions.inhabited_empty lines name
    · rintro ⟨k, hk⟩
      exact Functions.hasName_of_overload? hk
  overloads name k := by
    apply isSome_read_finish_iff (·.functions.overload? name k)
    · exact fun e h => Step.overload?_after_of_not_defines h
    · intro e h
      obtain ⟨ps, body, tree, -, -, -, hf⟩ := h.overload?_after
      rw [hf]
      rfl
    · rfl
  overload {name k e} h := by
    have hread := read_finish_of_isLast (·.functions.overload? name k)
      (fun e h => Step.overload?_after_of_not_defines h) h
    obtain ⟨earlier, later, hes, hdefines, -⟩ := h
    obtain ⟨ps, body, tree, htokens, hk, htree, hf⟩ := hdefines.overload?_after
    -- diagnostics never change, so the tree is the one that the final session would build
    have hmem : e ∈ (start diagnostics).steps lines := by
      rw [hes]
      exact List.mem_append_right _ List.mem_cons_self
    rw [build, diagnostics_of_mem_steps hmem, mapError_eq_ok_iff] at htree
    refine ⟨ps, body, tree, htokens, hk, ?_, hread.trans hf⟩
    rwa [diagnostics_finish]

/-- A run leaves bound what its last assignments and definitions of each name bind. An assignment
answers a value just if its body is a tree with that value under the bindings before the line, and
the definitions are the lines of their form with distinct parameters and a tree as the body.
Failures and expressions change nothing, and without any of them the other lines meet the same
sessions and answer the same. -/
theorem bindings_of_run (diagnostics : Bool) (lines : List String) :
    BindsLast ((start diagnostics).steps lines) ((start diagnostics).finish lines) ∧
    (∀ e ∈ (start diagnostics).steps lines, ∀ name body z,
      tokenize e.line = .ok (.ident name :: .equals :: body) →
      (e.answer = .ok (.value z) ↔ ∃ tree, Expr.ofTokens diagnostics body = .ok tree ∧
        tree.eval (.global e.before.vars e.before.functions) = .ok z)) ∧
    (∀ e ∈ (start diagnostics).steps lines, ∀ name k,
      e.Defines name k ↔ ∃ ps body tree,
        tokenize e.line = .ok (Line.heading name ps ++ .equals :: body) ∧ ps.Nodup ∧
          ps.length = k ∧ Expr.ofTokens diagnostics body = .ok tree) ∧
    (∀ e ∈ (start diagnostics).steps lines, e.Idle → e.after = e.before) ∧
    ∀ kept, Thinned ((start diagnostics).steps lines) kept →
      (start diagnostics).steps (kept.map Step.line) = kept ∧
      (start diagnostics).finish (kept.map Step.line) = (start diagnostics).finish lines := by
  simp only [ofTokens_eq_ok_iff]
  refine ⟨bindsLast_finish diagnostics lines, ?_, ?_, ?_, ?_⟩
  · intro e _ name body z h
    exact Step.answer_of_assignment_iff h
  · intro e _ name k
    exact Step.defines_iff
  · intro e _ h
    exact h.after_eq
  · intro kept h
    exact thinned_run h

def reassigning : List String := ["x = 2", "f(y) = y * x", "x = f(x) + 1", "x = z", "f(x)"]

def reassignment : Step := ⟨(start false).finish (reassigning.take 2), "x = f(x) + 1"⟩

theorem bindings_of_run_reassigning :
    IsLast (Step.Assigns "x") ((start false).steps reassigning) reassignment ∧
    reassignment.answer = .ok (.value (.real 5)) ∧
    ((start false).finish reassigning).vars["x"]? = some (.real 5) ∧
    (start false).finish (reassigning.take 3) = (start false).finish reassigning := by
  obtain ⟨hbinds, hassigns, -, -, hthinned⟩ := bindings_of_run false reassigning
  have htokens : tokenize reassignment.line = .ok [.ident "x", .equals, .ident "f", .lparen,
    .ident "x", .rparen, .op .add, .real 1] := by decide +kernel
  have hcall : IsProduct [.ident "f", .lparen, .ident "x", .rparen] (.call "f" [.call "x" []]) :=
    .ofPower (.ofAtom (.call "f" (.one (.ofProduct (.ofPower (.ofAtom (.ident "x")))))))
  have hsum : Expr.ofTokens false [.ident "f", .lparen, .ident "x", .rparen, .op .add, .real 1] =
      .ok (.binary .add (.call "f" [.call "x" []]) (.number (.real 1))) :=
    ofTokens_eq_ok_iff.2 (.binary (.inl rfl) (.ofProduct hcall) (.ofPower (.ofAtom (.real 1))))
  have hanswer : reassignment.answer = .ok (.value (.real 5)) :=
    (hassigns _ (List.mem_cons_of_mem _ (List.mem_cons_of_mem _ List.mem_cons_self)) "x" _ _
      htokens).2 ⟨_, hsum, by decide +kernel⟩
  have hfailure : (⟨reassignment.after, "x = z"⟩ : Step).Idle := by
    refine .inl ?_
    rintro ⟨r, hr⟩
    have hfails : (reassignment.after.process "x = z").1.isOk = false := by decide +kernel
    rw [Step.answer] at hr
    rw [hr] at hfails
    cases hfails
  have hexpression : (⟨(reassignment.after.process "x = z").2, "f(x)"⟩ : Step).Idle :=
    .inr ⟨[.ident "f", .lparen, .ident "x", .rparen], by decide +kernel, by decide⟩
  have hlast : IsLast (Step.Assigns "x") ((start false).steps reassigning) reassignment := by
    refine ⟨(start false).steps (reassigning.take 2), _, rfl, ⟨⟨_, hanswer⟩, _, htokens⟩, ?_⟩
    exact List.forall_mem_cons.2
      ⟨hfailure.not_assigns, List.forall_mem_singleton.2 hexpression.not_assigns⟩
  obtain ⟨z, hz, hvar⟩ := hbinds.value hlast
  cases hanswer.symm.trans hz
  exact ⟨hlast, hanswer, hvar, (hthinned _
    (.keep _ (.keep _ (.keep _ (.drop hfailure (.drop hexpression .nil)))))).2⟩

end ComplexCalc.Session
