import ComplexCalc.Proofs.Console.Agreement
import ComplexCalc.Proofs.Session.Closed
import ComplexCalc.Proofs.Session.Diagnostics

/-! Batches of lines that succeed. Joined by semicolons they are split again where they were joined,
so that a batch of them does what a session does with one after another. -/

namespace ComplexCalc.Console
open Session (Step)

variable {e : Step} {lines : List String} {s : Session}

theorem commands_of_succeeds (h : e.Succeeds) : commands e.line = [e.line] := by
  obtain ⟨r, hr⟩ := Step.succeeds_iff.1 h
  obtain ⟨c, hc, hblank⟩ := Session.exists_not_blank_of_attempt hr
  have htext : isBlankText e.line = false := List.all_eq_false.2 ⟨c, hc, by simp [hblank]⟩
  rw [commands, Session.statements_of_attempt hr]
  simp [htext]

theorem closesAll_of_succeeds (h : e.Succeeds) : ClosesAll e.line := by
  obtain ⟨r, hr⟩ := Step.succeeds_iff.1 h
  exact Session.closesAll_of_attempt hr

theorem flatMap_commands (h : ∀ e ∈ s.steps lines, e.Succeeds) :
    lines.flatMap commands = lines := by
  induction lines generalizing s with
  | nil => rfl
  | cons line lines ih =>
    obtain ⟨hline, hlines⟩ := List.forall_mem_cons.1 h
    rw [List.flatMap_cons, commands_of_succeeds hline, ih hlines]
    rfl

theorem commands_intercalate_of_succeed (h : ∀ e ∈ s.steps lines, e.Succeeds) :
    commands (";".intercalate lines) = lines := by
  have hclosed : ∀ line ∈ lines, ClosesAll line := by
    intro line hline
    rw [← s.map_line_steps lines] at hline
    obtain ⟨e, he, rfl⟩ := List.mem_map.1 hline
    exact closesAll_of_succeeds (h e he)
  rw [commands_intercalate hclosed, flatMap_commands h]

theorem isFailure_of_mem_events {o : Options} {batch : Bool} {event : Event} (h : e.Succeeds)
    (hmem : event ∈ (Action.call e).events o batch) : event.isFailure = false := by
  obtain ⟨r, hr⟩ := h
  rw [Action.events_call, hr, List.mem_append] at hmem
  rcases hmem with hmem | hmem
  · have htrees := filter_trees (p := (!·.isFailure)) (fun _ => rfl) o e.before e.line
    simpa using List.filter_eq_self.1 htrees event hmem
  · cases r with
    | defined => cases hmem
    | value z =>
      rw [answers] at hmem
      split at hmem
      · cases hmem
      · rw [List.mem_singleton.1 hmem]
        rfl

theorem runText_of_succeed {o : Options} (h : ∀ e ∈ s.steps lines, e.Succeeds) (batch : Bool) :
    runText o batch s (";".intercalate lines) =
      ((s.steps lines).flatMap fun e => trees o e.before e.line ++ answers batch e.line e.answer,
        s.finish lines) := by
  rw [runText_eq, calls, commands_intercalate_of_succeed h, List.flatMap_map]
  rfl

/-- A line that succeeds in any session is one statement, also in front of others. If lines
succeed one after another in a new session, a batch of them processes these lines and nothing
else, each with the same answer. It shows the trees and the answers of these lines, leaves the
session that they leave, and ends with the code 0. -/
theorem batch_runs_lines_that_succeed :
    (∀ (s : Session) (line : String) (r : Reply), (s.process line).1 = .ok r →
      statements line = [line] ∧
      ∀ rest, statements (line ++ ";" ++ rest) = line :: statements rest) ∧
    ∀ (d : Bool) (lines : List String), (∀ e ∈ (Session.start d).steps lines, e.Succeeds) →
      ∀ (o : Options) (stdin : List UInt8),
        (run (o.joined lines) stdin).events =
          ((Session.start o.verbose).steps lines).flatMap (fun e =>
            trees (o.joined lines) e.before e.line ++ answers true e.line e.answer) ∧
        (runText (o.joined lines) true (.start o.verbose) (";".intercalate lines)).2 =
          (Session.start o.verbose).finish lines ∧
        trace (o.joined lines) stdin = ((Session.start o.verbose).steps lines).map .call ∧
        ((Session.start o.verbose).steps lines).map Step.line = lines ∧
        ((Session.start o.verbose).steps lines).map Step.answer =
          ((Session.start d).steps lines).map Step.answer ∧
        (run (o.joined lines) stdin).code = 0 := by
  refine ⟨fun s line r h => ?_, fun d lines h o stdin => ?_⟩
  · obtain ⟨s', hr⟩ := Session.answers_ok_iff.1 h
    have hone := Session.statements_of_attempt hr
    refine ⟨hone, fun rest => ?_⟩
    rw [statements_append (Session.closesAll_of_attempt hr), hone, List.singleton_append]
  · have hsucceed : ∀ e ∈ (Session.start o.verbose).steps lines, e.Succeeds :=
      Session.succeeds_of_mem_steps h o.verbose
    have htext := runText_of_succeed (o := o.joined lines) hsucceed true
    have hevents : (run (o.joined lines) stdin).events =
        ((Session.start o.verbose).steps lines).flatMap fun e =>
          (Action.call e).events (o.joined lines) true := congrArg Prod.fst htext
    have hfails : (run (o.joined lines) stdin).events.any Event.isFailure = false := by
      rw [hevents, List.any_eq_false]
      intro event hevent
      obtain ⟨e, he, hmem⟩ := List.mem_flatMap.1 hevent
      rw [isFailure_of_mem_events (hsucceed e he) hmem]
      exact Bool.false_ne_true
    refine ⟨hevents, congrArg Prod.snd htext, ?_, Session.map_line_steps _ _,
      Session.answers_of_succeed h _, ?_⟩
    · change calls (.start o.verbose) (";".intercalate lines) = _
      rw [calls, commands_intercalate_of_succeed h]
    · rw [run_code, hfails, Bool.and_false]
      rfl

def workingLines : List String := ["x = (2)", "f(y, z) = y * x + z", "f(3, 1)"]

theorem batch_runs_lines_of_sample :
    (∀ e ∈ (Session.start false).steps workingLines, e.Succeeds) ∧
    statements "x = (2);f(y, z) = y * x + z" = ["x = (2)", "f(y, z) = y * x + z"] ∧
    (run (sampleOptions.joined workingLines) []).events =
      ((Session.start false).steps workingLines).flatMap (fun e =>
        trees (sampleOptions.joined workingLines) e.before e.line ++
          answers true e.line e.answer) ∧
    (run (sampleOptions.joined workingLines) []).output =
      dimmed "f\n  3\n  1\n" ++ green "=" ++ " " ++ bold "7" ++ "\n" ∧
    ((trace (sampleOptions.joined workingLines) []).filterMap Action.call?).map Step.line =
      workingLines ∧
    (run (sampleOptions.joined workingLines) []).code = 0 := by
  have hok : ∀ e ∈ (Session.start false).steps workingLines, e.answer.isOk = true := by
    decide +kernel
  have hsucceed : ∀ e ∈ (Session.start false).steps workingLines, e.Succeeds :=
    fun e he => exists_eq_ok (hok e he)
  obtain ⟨hlines, hbatch⟩ := batch_runs_lines_that_succeed
  obtain ⟨r, hr⟩ := hsucceed ⟨.start false, "x = (2)"⟩ List.mem_cons_self
  obtain ⟨hevents, -, htrace, hmap, -, hcode⟩ :=
    hbatch false workingLines hsucceed sampleOptions []
  refine ⟨hsucceed, ?_, hevents, ?_, ?_, hcode⟩
  · obtain ⟨-, hrest⟩ := hlines _ _ r hr
    exact (hrest "f(y, z) = y * x + z").trans (by decide +kernel)
  · rw [Transcript.output, hevents]
    decide +kernel
  · rw [htrace, List.filterMap_map]
    exact (congrArg (List.map Step.line) List.filterMap_some).trans hmap

end ComplexCalc.Console
