import ComplexCalc.Proofs.Grammar.Faults
import ComplexCalc.Proofs.Session.Run

/-! Sessions with their diagnostics turned off. Each operation of such a session does what it does
with diagnostics on, and its errors only lack the tokens at fault. -/

namespace ComplexCalc

def Error.blank : Error → Error
  | parse e => parse e.blank
  | e => e

theorem Halt.blank_error (h : Halt) : h.error.blank = h.error := by cases h <;> rfl

namespace Session
variable {ts body : List Token}

def quiet (s : Session) : Session := { s with diagnostics := false }

theorem build_quiet (s : Session) (ts : List Token) :
    s.quiet.build ts = (s.build ts).mapError .blank := by
  have htree : Expr.ofTokens false ts = (Expr.ofTokens s.diagnostics ts).mapError .blank :=
    (Grammar.mapError_ofTokens s.diagnostics ts).symm
  rw [build, build, quiet, htree]
  cases Expr.ofTokens s.diagnostics ts <;> rfl

theorem parse_quiet (s : Session) (line : String) :
    s.quiet.parse line = (s.parse line).mapError .blank := by
  rw [parse, parse, mapError_bind]
  cases tokenize line with
  | error e => rfl
  | ok ts => exact build_quiet s ts

theorem evaluate_quiet (s : Session) (ts : List Token) :
    s.quiet.evaluate ts = (s.evaluate ts).mapError .blank := by
  rw [evaluate, evaluate, mapError_bind, build_quiet]
  congr 1
  funext tree
  change (tree.eval s.environment).mapError Halt.error = _
  cases tree.eval s.environment with
  | error h => exact congrArg Except.error h.blank_error.symm
  | ok z => rfl

theorem assign_quiet (s : Session) (target : Token) (body : List Token) :
    s.quiet.assign target body =
      ((s.assign target body).mapError .blank).map fun p => (p.1, p.2.quiet) := by
  unfold assign
  split
  · rw [evaluate_quiet]
    cases s.evaluate body <;> rfl
  · rfl

theorem define_quiet (s : Session) (head body : List Token) :
    s.quiet.define head body = ((s.define head body).mapError .blank).map quiet := by
  unfold define
  split
  · rw [build_quiet]
    cases s.build body <;> rfl
  · rfl

theorem attempt_quiet (s : Session) (line : String) :
    s.quiet.attempt line =
      ((s.attempt line).mapError .blank).map fun p => (p.1, p.2.quiet) := by
  rw [attempt, attempt]
  cases tokenize line with
  | error e => rfl
  | ok ts =>
    simp only [Except.mapError, bind, Except.bind]
    cases Line.ofTokens ts with
    | expression ts =>
      dsimp only
      rw [evaluate_quiet]
      cases s.evaluate ts <;> rfl
    | assignment target body =>
      dsimp only
      rw [assign_quiet]
      cases s.assign target body <;> rfl
    | definition head body =>
      dsimp only
      rw [define_quiet]
      cases s.define head body <;> rfl

theorem process_quiet (s : Session) (line : String) :
    s.quiet.process line = ((s.process line).1.mapError .blank, (s.process line).2.quiet) := by
  rw [process, process, attempt_quiet]
  cases s.attempt line <;> rfl

namespace Step

def quiet (e : Step) : Step := ⟨e.before.quiet, e.line⟩

theorem answer_quiet (e : Step) : e.quiet.answer = e.answer.mapError .blank :=
  congrArg Prod.fst (process_quiet e.before e.line)

theorem after_quiet (e : Step) : e.quiet.after = e.after.quiet :=
  congrArg Prod.snd (process_quiet e.before e.line)

theorem succeeds_quiet_iff (e : Step) : e.quiet.Succeeds ↔ e.Succeeds := by
  rw [Succeeds, Succeeds, answer_quiet]
  simp only [mapError_eq_ok_iff]

theorem answer_quiet_of_succeeds {e : Step} (h : e.Succeeds) : e.quiet.answer = e.answer := by
  obtain ⟨r, hr⟩ := h
  rw [answer_quiet, hr]
  rfl

/-- That two steps take the same line and bind the same, and that the second one answers what the
first one does, but never with the tokens at fault. -/
structure SameButContext (loud quiet : Step) : Prop where
  line : quiet.line = loud.line
  vars : quiet.after.vars = loud.after.vars
  functions : quiet.after.functions = loud.after.functions
  answer : quiet.answer = loud.answer.mapError .blank
  context : ∀ err, quiet.answer = .error (.parse err) → err.context = []

theorem sameButContext_quiet (e : Step) : SameButContext e e.quiet where
  line := rfl
  vars := by rw [after_quiet]; rfl
  functions := by rw [after_quiet]; rfl
  answer := e.answer_quiet
  context := by
    intro err herr
    rw [answer_quiet, mapError_eq_error_iff] at herr
    obtain ⟨loud, -, hblank⟩ := herr
    cases loud <;> cases hblank
    rfl

end Step

theorem steps_quiet (s : Session) (lines : List String) :
    s.quiet.steps lines = (s.steps lines).map Step.quiet := by
  induction lines generalizing s with
  | nil => rfl
  | cons line lines ih =>
    have hafter : (s.quiet.process line).2 = (s.process line).2.quiet :=
      Step.after_quiet ⟨s, line⟩
    rw [steps, steps, hafter, ih]
    rfl

section Start
-- a new session is quiet or the loud twin of a quiet one
variable {d : Bool} {lines : List String}

theorem steps_start_false (d : Bool) (lines : List String) :
    (start false).steps lines = ((start d).steps lines).map Step.quiet :=
  steps_quiet (start d) lines

theorem succeeds_of_mem_steps (h : ∀ e ∈ (start d).steps lines, e.Succeeds) (d' : Bool) :
    ∀ e ∈ (start d').steps lines, e.Succeeds := by
  intro e he
  have hquiet : e.quiet ∈ ((start d).steps lines).map Step.quiet := by
    rw [← steps_start_false, steps_start_false d']
    exact List.mem_map_of_mem he
  obtain ⟨e', he', heq⟩ := List.mem_map.1 hquiet
  rw [← e.succeeds_quiet_iff, ← heq, e'.succeeds_quiet_iff]
  exact h e' he'

theorem answers_of_succeed (h : ∀ e ∈ (start d).steps lines, e.Succeeds) (d' : Bool) :
    ((start d').steps lines).map Step.answer = ((start d).steps lines).map Step.answer := by
  have hfalse {d : Bool} (h : ∀ e ∈ (start d).steps lines, e.Succeeds) :
      ((start false).steps lines).map Step.answer = ((start d).steps lines).map Step.answer := by
    rw [steps_start_false d, List.map_map]
    exact List.map_congr_left fun e he => Step.answer_quiet_of_succeeds (h e he)
  rw [← hfalse h, ← hfalse (succeeds_of_mem_steps h d')]

end Start

theorem finish_quiet (s : Session) (lines : List String) :
    s.quiet.finish lines = (s.finish lines).quiet := by
  induction lines generalizing s with
  | nil => rfl
  | cons line lines ih =>
    have hafter : (s.quiet.process line).2 = (s.process line).2.quiet :=
      Step.after_quiet ⟨s, line⟩
    rw [finish, finish, hafter, ih]

end Session

end ComplexCalc
