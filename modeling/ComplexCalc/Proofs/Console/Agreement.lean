import ComplexCalc.Proofs.Console.Input
import ComplexCalc.Proofs.Console.Trace
import ComplexCalc.Proofs.Session.Statements

/-! The two ways to run lines: joined to one text in a batch, or typed in an interactive session.
The same statements meet the same sessions. A batch shows less, but not of the errors. -/

namespace ComplexCalc.Console

def Options.joined (o : Options) (lines : List String) : Options :=
  { o with input := some (";".intercalate lines) }

/-- Whether a batch shows an event of what an interactive session does: not the prompts, not the
farewell and not the values of assignments. -/
def Action.shows : Action → Event → Bool
  | call e, .value _ => !e.isAssignment
  | call _, _ => true
  | prompt, _ | farewell, _ => false

variable {lines : List String}

theorem commands_intercalate (h : ∀ line ∈ lines, ClosesAll line) :
    commands (";".intercalate lines) = lines.flatMap commands := by
  by_cases hne : lines = []
  · rw [hne]
    exact commands_of_trim_eq_nil rfl
  · rw [commands, statements_intercalate h hne, List.filter_flatMap]
    rfl

theorem filter_trees {p : Event → Bool} (h : ∀ e, p (.tree e) = true) (o : Options) (s : Session)
    (statement : String) : (trees o s statement).filter p = trees o s statement := by
  rw [List.filter_eq_self, trees]
  split
  · split <;> simp [h]
  · simp

theorem events_batch (o : Options) (e : Session.Step) : (Action.call e).events o true =
    ((Action.call e).events o false).filter (Action.call e).shows := by
  rw [Action.events_call, Action.events_call, List.filter_append, filter_trees fun _ => rfl]
  congr 1
  cases hanswer : e.answer with
  | error err => rfl
  | ok r =>
    cases r with
    | defined => rfl
    | value z =>
      rw [answers, answers, Session.Step.isBinding_eq_isAssignment hanswer]
      cases hassignment : e.isAssignment <;> simp [Action.shows, hassignment]

theorem errors_filter {p : Event → Bool} {events : List Event}
    (h : ∀ event ∈ events, p event = false → event.errors = "") :
    String.join ((events.filter p).map Event.errors) = String.join (events.map Event.errors) := by
  induction events with
  | nil => rfl
  | cons event events ih =>
    obtain ⟨hevent, hevents⟩ := List.forall_mem_cons.1 h
    cases hp : p event with
    | true => rw [List.filter_cons_of_pos hp, List.map_cons, List.map_cons, String.join_cons,
        String.join_cons, ih hevents]
    | false => rw [List.filter_cons_of_neg (Bool.eq_false_iff.1 hp), List.map_cons,
        String.join_cons, hevent hp, String.empty_append, ih hevents]

def sampleOptions : Options := ⟨true, false, none⟩

end ComplexCalc.Console
