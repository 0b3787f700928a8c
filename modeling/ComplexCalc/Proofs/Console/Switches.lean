import ComplexCalc.Proofs.Console.Agreement
import ComplexCalc.Proofs.Session.Diagnostics

/-! The two switches only observe. One more argument turns a switch on and leaves the other options
as they are; with diagnostics a run says more in its errors, with trees it shows more between its
answers, and everything else stays as it is. -/

namespace ComplexCalc.Console

def Switch.texts : Switch → List String
  | dumpTree => ["-d", "--dump-tree"]
  | verbose => ["-v", "--verbose"]

namespace Options
variable {o o' : Options} {sw : Switch}

def has (o : Options) : Switch → Bool
  | .dumpTree => o.dumpTree
  | .verbose => o.verbose

def turnOn (o : Options) : Switch → Options
  | .dumpTree => { o with dumpTree := true }
  | .verbose => { o with verbose := true }

/-- That a step from options to options does the same if the switch has been turned on before,
unless it turns it on itself. -/
def Ignores (sw : Switch) (f : Options → Option Options) : Prop :=
  ∀ o o', f o = some o' → o'.has sw = false →
    o.has sw = false ∧ f (o.turnOn sw) = some (o'.turnOn sw)

theorem ignores_switch? (sw sw' : Switch) : Ignores sw (·.switch? sw') := by
  intro o o' h ho'
  cases sw <;> cases sw' <;> grind [switch?, has, turnOn]

theorem ignores_setInput? (sw : Switch) (text : String) : Ignores sw (·.setInput? text) := by
  intro o o' h ho'
  cases sw <;> grind [setInput?, has, turnOn]

theorem Ignores.bind {f g : Options → Option Options} (hf : Ignores sw f) (hg : Ignores sw g) :
    Ignores sw fun o => (f o).bind g := by
  intro o o' h ho'
  obtain ⟨m, hm, ho⟩ := Option.bind_eq_some_iff.1 h
  obtain ⟨hm', ho⟩ := hg m o' ho ho'
  obtain ⟨ho', hm⟩ := hf o m hm hm'
  exact ⟨ho', Option.bind_eq_some_iff.2 ⟨_, hm, ho⟩⟩

theorem ignores_foldlM {α : Type} {f : Options → α → Option Options}
    (hf : ∀ x, Ignores sw (f · x)) (xs : List α) : Ignores sw fun o => xs.foldlM f o := by
  induction xs with
  | nil =>
    intro o o' h ho'
    cases h
    exact ⟨ho', rfl⟩
  | cons x xs ih => exact (hf x).bind ih

theorem ignores_argument? (sw : Switch) (text : String) : Ignores sw (·.argument? text) := by
  have hswitch (sw' : Option Switch) : Ignores sw fun o => sw'.bind o.switch? := by
    cases sw' with
    | none => exact nofun
    | some sw' => exact ignores_switch? sw sw'
  intro o o' h ho'
  unfold argument? at h ⊢
  generalize text.toList = cs at h ⊢
  split at h
  · exact hswitch _ o o' h ho'
  · exact ignores_foldlM (fun c => hswitch (Switch.ofLetter? c)) _ o o' h ho'
  · exact ignores_setInput? sw text o o' h ho'

theorem ignores_read? (sw : Switch) (arguments : List String) :
    Ignores sw (·.read? arguments) := by
  induction arguments with
  | nil =>
    intro o o' h ho'
    cases h
    exact ⟨ho', rfl⟩
  | cons text rest ih =>
    by_cases hdashes : text = "--"
    · simp only [read?, if_pos hdashes]
      exact ignores_foldlM (ignores_setInput? sw) rest
    · simp only [read?, if_neg hdashes]
      exact (ignores_argument? sw text).bind ih

theorem argument?_of_mem_texts {text : String} (h : text ∈ sw.texts) (o : Options) :
    o.argument? text = o.switch? sw := by
  cases sw <;> rcases List.mem_pair.1 h with rfl | rfl
  · exact Option.bind_fun_some (o.switch? .dumpTree)
  · rfl
  · exact Option.bind_fun_some (o.switch? .verbose)
  · rfl

theorem switch?_of_has (h : o.has sw = false) : o.switch? sw = some (o.turnOn sw) := by
  cases sw <;> exact if_neg (Bool.eq_false_iff.1 h)

theorem ofArguments?_turnOn {text : String} {l r : List String} (htext : text ∈ sw.texts)
    (hl : "--" ∉ l) (ho : ofArguments? (l ++ r) = some o) (hsw : o.has sw = false) :
    ofArguments? (l ++ text :: r) = some (o.turnOn sw) := by
  have hdashes : text ≠ "--" := by
    cases sw <;> rcases List.mem_pair.1 htext with rfl | rfl <;> decide
  rw [ofArguments?, read?_append hl] at ho ⊢
  obtain ⟨m, hm, hr⟩ := Option.bind_eq_some_iff.1 ho
  obtain ⟨hmsw, hr⟩ := ignores_read? sw r m o hr hsw
  rw [hm, Option.bind_some, read?, if_neg hdashes, argument?_of_mem_texts htext,
    switch?_of_has hmsw, Option.bind_some]
  exact hr

end Options

namespace Event

def quiet : Event → Event
  | failure e => failure e.blank
  | event => event

def isTree : Event → Bool
  | tree _ => true
  | _ => false

def message? : Event → Option String
  | failure e => some e.message
  | _ => none

theorem output_quiet (event : Event) : event.quiet.output = event.output := by
  cases event <;> rfl

theorem isFailure_quiet (event : Event) : event.quiet.isFailure = event.isFailure := by
  cases event <;> rfl

end Event

namespace Transcript

def messages (t : Transcript) : List String := t.events.filterMap Event.message?

def outputWithoutTrees (t : Transcript) : String :=
  String.join ((t.events.filter (!·.isTree)).map Event.output)

theorem errors_eq_messages (t : Transcript) :
    t.errors = String.join (t.messages.map fun text => red text ++ "\n") := by
  rw [errors, messages]
  induction t.events with
  | nil => rfl
  | cons event events ih =>
    rw [List.map_cons, String.join_cons, ih]
    cases event with
    | failure e =>
      have hmessage : (Event.failure e).message? = some e.message := rfl
      rw [List.filterMap_cons_some hmessage, List.map_cons, String.join_cons]
      rfl
    | _ => rw [List.filterMap_cons_none rfl]; exact String.empty_append

end Transcript

/-- Whether a message says the same as another one, or shows some tokens besides. -/
def Extends (brief full : String) : Prop :=
  full = brief ∨ ∃ tokens : List Token, tokens ≠ [] ∧
    full = brief ++ " in `" ++ " ".intercalate (tokens.map Token.text) ++ "`"

theorem Extends.refl (text : String) : Extends text text := .inl rfl

theorem Extends.append {brief full : String} (h : Extends brief full) (text : String) :
    Extends (text ++ brief) (text ++ full) := by
  rcases h with rfl | ⟨tokens, hne, rfl⟩
  · exact .refl _
  · exact .inr ⟨tokens, hne, by simp only [String.append_assoc]⟩

theorem syntaxError_extends (e : SyntaxError) : Extends e.blank.message e.message := by
  obtain ⟨fault, context⟩ := e
  cases context with
  | nil => exact Extends.refl fault.message
  | cons t ts => exact .inr ⟨t :: ts, List.cons_ne_nil t ts, rfl⟩

theorem error_extends (e : Error) : Extends e.blank.message e.message := by
  cases e with
  | parse e => exact (syntaxError_extends e).append "syntax error: "
  | _ => exact Extends.refl _

theorem messages_quiet (events : List Event) :
    List.Forall₂ Extends ((events.map Event.quiet).filterMap Event.message?)
      (events.filterMap Event.message?) := by
  induction events with
  | nil => exact .nil
  | cons event events ih =>
    cases event with
    | failure e => exact .cons (error_extends e) ih
    | _ => exact ih

def Action.quiet : Action → Action
  | call e => call e.quiet
  | a => a

theorem calls_quiet (s : Session) (text : String) :
    calls s.quiet text = (calls s text).map Action.quiet := by
  rw [calls, calls, Session.steps_quiet, List.map_map, List.map_map]
  rfl

theorem dialogue_quiet (s : Session) (lines : List (Option String)) :
    dialogue s.quiet lines = (dialogue s lines).map Action.quiet := by
  induction lines generalizing s with
  | nil => rfl
  | cons line lines ih =>
    cases line with
    | none => rfl
    | some line =>
      rw [dialogue, dialogue]
      split
      · rfl
      · rw [calls_quiet, Session.finish_quiet, ih, List.map_cons, List.map_append]
        rfl

section Runs
variable {o : Options}

theorem trace_turnOn_verbose (h : o.has .verbose = false) (stdin : List UInt8) :
    trace o stdin = (trace (o.turnOn .verbose) stdin).map Action.quiet := by
  have hstart : Session.start o.verbose = (Session.start true).quiet := by
    have hverbose : o.verbose = false := h
    rw [hverbose]
    rfl
  have hinput : (o.turnOn .verbose).input = o.input := rfl
  rw [trace, trace, hinput, hstart]
  cases o.input with
  | none => exact dialogue_quiet _ _
  | some text => exact calls_quiet _ text

theorem trees_quiet (s : Session) (statement : String) :
    trees o s.quiet statement = (trees (o.turnOn .verbose) s statement).map Event.quiet := by
  have hdump : (o.turnOn .verbose).dumpTree = o.dumpTree := rfl
  rw [trees, trees, hdump, Session.parse_quiet]
  split
  · cases s.parse statement <;> rfl
  · rfl

theorem answers_blank (batch : Bool) (statement : String) (answer : Except Error Reply) :
    answers batch statement (answer.mapError .blank) =
      (answers batch statement answer).map Event.quiet := by
  rcases answer with e | z | _
  · rfl
  · change (if _ then _ else _) = _
    rw [answers]
    split <;> rfl
  · rfl

theorem events_quiet (batch : Bool) (a : Action) :
    a.quiet.events o batch = (a.events (o.turnOn .verbose) batch).map Event.quiet := by
  cases a with
  | call e =>
    rw [Action.events_call, List.map_append, ← trees_quiet, ← answers_blank, ← e.answer_quiet]
    exact Action.events_call o batch e.quiet
  | _ => rfl

theorem events_turnOn_verbose (h : o.has .verbose = false) (stdin : List UInt8) :
    (run o stdin).events = (run (o.turnOn .verbose) stdin).events.map Event.quiet := by
  rw [run_events, run_events, trace_turnOn_verbose h, List.flatMap_map, List.map_flatMap]
  simp only [events_quiet]
  rfl

theorem trees_turnOn_dumpTree (h : o.has .dumpTree = false) (s : Session) (statement : String) :
    (trees (o.turnOn .dumpTree) s statement).filter (!·.isTree) = trees o s statement := by
  have hdump : o.dumpTree = false := h
  rw [trees, trees, hdump]
  split
  · cases s.parse statement <;> rfl
  · rfl

theorem filter_answers (batch : Bool) (statement : String) (answer : Except Error Reply) :
    (answers batch statement answer).filter (!·.isTree) = answers batch statement answer := by
  rcases answer with e | z | _
  · rfl
  · rw [answers]
    split <;> rfl
  · rfl

theorem events_filter_trees (h : o.has .dumpTree = false) (batch : Bool) (a : Action) :
    (a.events (o.turnOn .dumpTree) batch).filter (!·.isTree) = a.events o batch := by
  cases a with
  | call e =>
    rw [Action.events_call, Action.events_call, List.filter_append, filter_answers,
      trees_turnOn_dumpTree h]
  | _ => rfl

theorem events_turnOn_dumpTree (h : o.has .dumpTree = false) (stdin : List UInt8) :
    (run o stdin).events = (run (o.turnOn .dumpTree) stdin).events.filter (!·.isTree) := by
  have htrace : trace (o.turnOn .dumpTree) stdin = trace o stdin := rfl
  rw [run_events, run_events, htrace, List.filter_flatMap]
  congr 1
  funext a
  exact (events_filter_trees h _ a).symm

theorem any_isFailure_quiet (events : List Event) :
    (events.map Event.quiet).any Event.isFailure = events.any Event.isFailure := by
  rw [List.any_map]
  congr 1
  funext event
  exact event.isFailure_quiet

theorem any_isFailure_filter (events : List Event) :
    (events.filter (!·.isTree)).any Event.isFailure = events.any Event.isFailure := by
  rw [List.any_filter]
  congr 1
  funext event
  cases event <;> rfl

end Runs

/-- With diagnostics a session binds the same and answers the same, but for the tokens at fault. A
switch may be added anywhere among the arguments before `--`. With diagnostics a run writes the same
output and ends with the same code, and each of its messages is as it was or shows the tokens at
fault besides; with trees it writes the same errors and ends with the same code, and its output is
the same but for the trees. -/
theorem switches_only_observe :
    (∀ lines, List.Forall₂ Session.Step.SameButContext ((Session.start true).steps lines)
      ((Session.start false).steps lines)) ∧
    (∀ sw : Switch, ∀ text ∈ sw.texts, ∀ l r o, "--" ∉ l →
      Options.ofArguments? (l ++ r) = some o → o.has sw = false →
      Options.ofArguments? (l ++ text :: r) = some (o.turnOn sw)) ∧
    ∀ (o : Options) (stdin : List UInt8),
      (o.has .verbose = false →
        (run (o.turnOn .verbose) stdin).output = (run o stdin).output ∧
        (run (o.turnOn .verbose) stdin).code = (run o stdin).code ∧
        List.Forall₂ Extends (run o stdin).messages (run (o.turnOn .verbose) stdin).messages) ∧
      (o.has .dumpTree = false →
        (run (o.turnOn .dumpTree) stdin).errors = (run o stdin).errors ∧
        (run (o.turnOn .dumpTree) stdin).code = (run o stdin).code ∧
        (run o stdin).output = (run (o.turnOn .dumpTree) stdin).outputWithoutTrees) ∧
      (run o stdin).errors =
        String.join ((run o stdin).messages.map fun text => red text ++ "\n") := by
  refine ⟨fun lines => ?_, fun sw text htext l r o hl ho hsw =>
    Options.ofArguments?_turnOn htext hl ho hsw,
    fun o stdin => ⟨fun hverbose => ?_, fun hdump => ?_, Transcript.errors_eq_messages _⟩⟩
  · have hstart : Session.start false = (Session.start true).quiet := rfl
    rw [hstart, Session.steps_quiet, List.forall₂_map_right_iff, List.forall₂_same]
    exact fun e _ => e.sameButContext_quiet
  · have hevents := events_turnOn_verbose hverbose stdin
    refine ⟨?_, ?_, ?_⟩
    · rw [Transcript.output, Transcript.output, hevents, List.map_map]
      congr 2
      funext event
      exact event.output_quiet.symm
    · rw [run_code, run_code o, hevents, any_isFailure_quiet]
      rfl
    · rw [Transcript.messages, Transcript.messages, hevents]
      exact messages_quiet _
  · have hevents := events_turnOn_dumpTree hdump stdin
    refine ⟨?_, ?_, ?_⟩
    · rw [Transcript.errors, Transcript.errors, hevents, errors_filter]
      intro event _ htree
      cases event with
      | tree e => rfl
      | _ => cases htree
    · rw [run_code, run_code o, hevents, any_isFailure_filter]
      rfl
    · rw [Transcript.output, hevents, Transcript.outputWithoutTrees]

def unobserved : Options := ⟨false, false, some "x = 2; 3 4; x"⟩

theorem switches_only_observe_failure :
    Options.ofArguments? ["--verbose", "--", "x = 2; 3 4; x"] = some (unobserved.turnOn .verbose) ∧
    (run unobserved []).messages = ["syntax error: no operators found"] ∧
    (run (unobserved.turnOn .verbose) []).messages =
      ["syntax error: no operators found in `3 4`"] ∧
    List.Forall₂ Extends (run unobserved []).messages
      (run (unobserved.turnOn .verbose) []).messages ∧
    (run (unobserved.turnOn .verbose) []).output = (run unobserved []).output ∧
    (run unobserved []).output = green "=" ++ " " ++ bold "2" ++ "\n" ∧
    (run (unobserved.turnOn .dumpTree) []).output = dimmed "x\n" ++ (run unobserved []).output ∧
    (run (unobserved.turnOn .dumpTree) []).outputWithoutTrees = (run unobserved []).output ∧
    (run (unobserved.turnOn .dumpTree) []).errors = (run unobserved []).errors ∧
    (run (unobserved.turnOn .verbose) []).code = 1 ∧
    (run (unobserved.turnOn .dumpTree) []).code = 1 := by
  obtain ⟨-, harguments, hruns⟩ := switches_only_observe
  obtain ⟨hverbose, hdump, -⟩ := hruns unobserved []
  obtain ⟨houtput, hcode, hmessages⟩ := hverbose rfl
  obtain ⟨herrors, hcode', hwithout⟩ := hdump rfl
  have hfails : (run unobserved []).code = 1 := by decide +kernel
  refine ⟨harguments .verbose "--verbose" (by decide) [] ["--", "x = 2; 3 4; x"] unobserved
    List.not_mem_nil (by decide) rfl, by decide +kernel, by decide +kernel, hmessages, houtput,
    by decide +kernel, ?_, hwithout.symm, herrors, hcode.trans hfails, hcode'.trans hfails⟩
  decide +kernel

end ComplexCalc.Console
