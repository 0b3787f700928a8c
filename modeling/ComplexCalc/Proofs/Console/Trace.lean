import ComplexCalc.Console.Run
import ComplexCalc.Proofs.Session.Statements

/-! Runs of the console as what they do: wait for a line, process a statement, say farewell. The
events of a run are those of what it does, in order. -/

namespace ComplexCalc

theorem Text.isBlank_of_trim_eq_nil {cs : List Char} (h : Text.trim cs = []) {c : Char}
    (hc : c ∈ cs) : Text.isBlank c = true := by
  rw [trim, List.reverse_eq_nil_iff, List.dropWhile_eq_nil_iff] at h
  rw [← List.takeWhile_append_dropWhile (p := isBlank) (l := cs), List.mem_append] at hc
  rcases hc with hc | hc
  · exact List.mem_takeWhile_imp hc
  · exact h c (List.mem_reverse.2 hc)

namespace Console
variable {o : Options} {s : Session}

def commands (text : String) : List String := (statements text).filter (!isBlankText ·)

theorem commands_of_trim_eq_nil {text : String} (h : Text.trim text.toList = []) :
    commands text = [] := by
  have hblank : ∀ c ∈ text.toList, Text.isBlank c = true := fun c => Text.isBlank_of_trim_eq_nil h
  have hsemicolon : ';' ∉ text.toList := fun hmem => absurd (hblank ';' hmem) (by decide)
  rw [commands, statements_of_not_mem hsemicolon]
  simpa [isBlankText] using hblank

def trees (o : Options) (s : Session) (statement : String) : List Event :=
  if o.dumpTree && !isBinding statement then
    match s.parse statement with
    | .ok e => [.tree e]
    | .error _ => []
  else []

def answers (batch : Bool) (statement : String) : Except Error Reply → List Event
  | .ok (.value z) => if batch && isBinding statement then [] else [.value z]
  | .ok .defined => []
  | .error e => [.failure e]

inductive Action
  | prompt
  | call (e : Session.Step)
  | farewell

namespace Action

def call? : Action → Option Session.Step
  | call e => some e
  | prompt | farewell => none

def events (o : Options) (batch : Bool) : Action → List Event
  | prompt => [.prompt]
  | call e => trees o e.before e.line ++ answers batch e.line e.answer
  | farewell => [.farewell]

theorem events_call (o : Options) (batch : Bool) (e : Session.Step) :
    (call e).events o batch = trees o e.before e.line ++ answers batch e.line e.answer := rfl

end Action

def calls (s : Session) (text : String) : List Action := (s.steps (commands text)).map .call

/-- What an interactive session does with its lines, where `none` is a line that is not text. -/
def dialogue (s : Session) : List (Option String) → List Action
  | [] | none :: _ => [.prompt, .farewell]
  | some line :: lines =>
    if Text.trim line.toList = "exit".toList then [.prompt]
    else .prompt :: (calls s line ++ dialogue (s.finish (commands line)) lines)

def trace (o : Options) (stdin : List UInt8) : List Action :=
  match o.input with
  | some text => calls (.start o.verbose) text
  | none => dialogue (.start o.verbose) ((rawLines stdin).map decodeLine)

theorem runStatement_eq (o : Options) (batch : Bool) (e : Session.Step) :
    runStatement o batch e.before e.line = ((Action.call e).events o batch, e.after) := by
  rw [runStatement, Action.events_call, trees, Session.Step.answer, Session.Step.after]
  rcases e.before.process e.line with ⟨_ | _ | _, s'⟩
  · rfl
  · rfl
  · exact congrArg (·, s') (List.append_nil _).symm

theorem runText_eq (o : Options) (batch : Bool) (s : Session) (text : String) :
    runText o batch s text =
      ((calls s text).flatMap (Action.events o batch), s.finish (commands text)) := by
  rw [runText, calls, List.flatMap_map]
  change runStatements o batch s (commands text) = _
  induction commands text generalizing s with
  | nil => rfl
  | cons statement rest ih =>
    have hstep : runStatement o batch s statement =
        ((Action.call ⟨s, statement⟩).events o batch, (s.process statement).2) :=
      runStatement_eq o batch ⟨s, statement⟩
    simp only [runStatements, hstep, ih]
    rfl

/-- A blank line is none that a session has to know of: no statement of it is run. -/
theorem answerLine_eq (o : Options) (s : Session) (line : String) :
    answerLine o s (some line) =
      if Text.trim line.toList = "exit".toList then ([], none)
      else ((calls s line).flatMap (Action.events o false), some (s.finish (commands line))) := by
  rw [answerLine]
  by_cases hblank : Text.trim line.toList = []
  · have hexit : ¬ Text.trim line.toList = "exit".toList := by
      rw [hblank]
      decide
    rw [if_pos hblank, if_neg hexit, calls, commands_of_trim_eq_nil hblank]
    rfl
  · rw [if_neg hblank, runText_eq]

theorem interact_eq (o : Options) (s : Session) (lines : List (Option String)) :
    interact o s lines = (dialogue s lines).flatMap (Action.events o false) := by
  induction lines generalizing s with
  | nil => rfl
  | cons line lines ih =>
    cases line with
    | none => rfl
    | some line =>
      rw [interact, answerLine_eq, dialogue]
      by_cases hexit : Text.trim line.toList = "exit".toList
      · rw [if_pos hexit, if_pos hexit]
        rfl
      · rw [if_neg hexit, if_neg hexit, List.flatMap_cons, List.flatMap_append, ← ih]
        rfl

theorem run_events (o : Options) (stdin : List UInt8) :
    (run o stdin).events = (trace o stdin).flatMap (Action.events o o.input.isSome) := by
  rw [run, trace]
  cases o.input with
  | none => exact interact_eq o _ _
  | some text => exact congrArg Prod.fst (runText_eq o true _ text)

theorem run_code (o : Options) (stdin : List UInt8) : (run o stdin).code =
    if o.input.isSome && (run o stdin).events.any Event.isFailure then 1 else 0 := by
  rw [run]
  cases o.input <;> rfl

end Console

end ComplexCalc
