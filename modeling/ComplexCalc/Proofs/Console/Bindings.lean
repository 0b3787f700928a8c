import ComplexCalc.Proofs.Console.Agreement
import ComplexCalc.Proofs.Evaluation.Values
import ComplexCalc.Proofs.Session.Acceptance

/-! Statements with an equals sign in their text, and statements without one. Those without are
expressions: the tree that is shown for one is the tree that is evaluated. Those with one have no
tree, and the only values that they answer are those of assignments. -/

namespace ComplexCalc

namespace Session
open Grammar

variable {s : Session} {text : String} {ts : List Token} {z : Number}

theorem parse_of_tokenize (h : tokenize text = .ok ts) (s : Session) :
    s.parse text = s.build ts := by
  rw [parse, h]
  rfl

theorem attempt_of_tokenize_error {e : LexError} (h : tokenize text = .error e) (s : Session) :
    s.attempt text = .error (.lex e) ∧ s.parse text = .error (.lex e) := by
  rw [attempt, parse, h]
  exact ⟨rfl, rfl⟩

theorem process_of_not_isBinding (h : isBinding text = false) (s : Session) :
    s.process text = ((s.parse text >>= fun tree =>
      (tree.eval s.environment).mapError Halt.error).map .value, s) := by
  cases htokens : tokenize text with
  | error e =>
    obtain ⟨hattempt, hparse⟩ := attempt_of_tokenize_error htokens s
    rw [process, hattempt, hparse]
    rfl
  | ok ts =>
    have hno : .equals ∉ ts := by
      rw [← isBinding_iff_mem htokens, h]
      exact Bool.false_ne_true
    rw [process_of_not_mem htokens hno, parse_of_tokenize htokens]
    rfl

theorem exists_parse_eq_error (h : isBinding text = true) (s : Session) :
    ∃ err, s.parse text = .error err := by
  cases hparse : s.parse text with
  | error err => exact ⟨err, rfl⟩
  | ok tree =>
    have htokens := hparse
    rw [parse, bind_eq_ok_iff] at htokens
    obtain ⟨ts, hts, htree⟩ := htokens
    rw [mapError_eq_ok_iff] at hts
    have hmem : .equals ∈ ts := (isBinding_iff_mem hts).1 h
    exact absurd hmem (build_eq_ok_iff.1 htree).tidy.equals

theorem assigned_of_isBinding (h : isBinding text = true)
    (hz : (s.process text).1 = .ok (.value z)) : ∃ name body tree,
      tokenize text = .ok (.ident name :: .equals :: body) ∧ IsSum body tree ∧
        tree.eval s.environment = .ok z := by
  obtain ⟨s', hattempt⟩ := answers_ok_iff.1 hz
  obtain ⟨ts, hts, -⟩ := attempt_eq_ok hattempt
  have hmem : .equals ∈ ts := (isBinding_iff_mem hts).1 h
  obtain ⟨name, body, tree, rfl, htree, hvalue⟩ := (answers_value_iff_of_mem hts hmem).1 hz
  exact ⟨name, body, tree, hts, htree, hvalue⟩

end Session

namespace Console
open Session (Step)

variable {o : Options} {s : Session} {text : String}

def Event.ofResult : Except Halt Number → Event
  | .ok z => .value z
  | .error halt => .failure halt.error

theorem answers_ofResult (h : isBinding text = false) (batch : Bool) (r : Except Halt Number) :
    answers batch text ((r.mapError Halt.error).map .value) = [.ofResult r] := by
  cases r with
  | error halt => rfl
  | ok z =>
    have hvalue : answers batch text (.ok (.value z)) =
      if batch && isBinding text then [] else [.value z] := rfl
    rw [h, Bool.and_false, if_neg Bool.false_ne_true] at hvalue
    exact hvalue

theorem runStatement_of_not_isBinding (h : isBinding text = false) (o : Options) (batch : Bool)
    (s : Session) : runStatement o batch s text =
      match s.parse text with
      | .ok tree =>
        ((if o.dumpTree then [.tree tree] else []) ++ [.ofResult (tree.eval s.environment)], s)
      | .error e => ([.failure e], s) := by
  have hstep : runStatement o batch s text =
      (trees o s text ++ answers batch text (s.process text).1, (s.process text).2) :=
    runStatement_eq o batch ⟨s, text⟩
  rw [hstep, trees, Session.process_of_not_isBinding h, h, Bool.not_false, Bool.and_true]
  cases s.parse text with
  | error e => cases o.dumpTree <;> rfl
  | ok tree =>
    have hanswers : answers batch text
        (((tree.eval s.environment).mapError Halt.error).map .value) = _ :=
      answers_ofResult h batch _
    exact congrArg (fun events => ((if o.dumpTree then [.tree tree] else []) ++ events, s))
      hanswers

theorem trees_of_isBinding (h : isBinding text = true) (o : Options) (s : Session) :
    trees o s text = [] := by
  rw [trees, h, Bool.not_true, Bool.and_false, if_neg Bool.false_ne_true]

theorem events_of_assigns {e : Step} {name : String} (h : e.Assigns name) (o : Options) :
    ∃ z, (Action.call e).events o false = [.value z] ∧ (Action.call e).events o true = [] := by
  obtain ⟨z, hz, -⟩ := h.after_eq
  have hassignment : e.isAssignment = true := Step.isAssignment_iff.2 ⟨name, h⟩
  have hbinding : isBinding e.line = true :=
    (Step.isBinding_eq_isAssignment hz).trans hassignment
  have hshown : (Action.call e).events o false = [.value z] := by
    rw [Action.events_call, trees_of_isBinding hbinding, hz]
    rfl
  have hhidden : (Action.call e).shows (.value z) = false := by
    rw [Action.shows, hassignment]
    rfl
  refine ⟨z, hshown, ?_⟩
  rw [events_batch, hshown, List.filter_singleton, hhidden]
  rfl

theorem events_of_not_assigns {e : Step} (h : ∀ name, ¬ e.Assigns name) (o : Options) :
    (Action.call e).events o true = (Action.call e).events o false := by
  have hassignment : e.isAssignment = false := by
    rw [Bool.eq_false_iff, ne_eq, Step.isAssignment_iff, not_exists]
    exact h
  rw [events_batch, List.filter_eq_self]
  intro event _
  cases event with
  | value z =>
    rw [Action.shows, hassignment]
    rfl
  | _ => rfl

/-- A statement that is made of tokens has one that is an equals sign just if its text has an
equals sign. Without one in its text a statement answers what its tree evaluates to, and that tree
is the one that is shown. With one it has no tree, and if it answers a value then it is the
assignment of that value to a name. A batch hides the values of the assignments that succeed, and
nothing else. -/
theorem equals_sign_tells_bindings (s : Session) (text : String) :
    (∀ ts, tokenize text = .ok ts → (isBinding text = true ↔ .equals ∈ ts)) ∧
    (isBinding text = false →
      s.process text = ((s.parse text >>= fun tree =>
        (tree.eval s.environment).mapError Halt.error).map .value, s) ∧
      ∀ o batch, runStatement o batch s text =
        match s.parse text with
        | .ok tree =>
          ((if o.dumpTree then [.tree tree] else []) ++ [.ofResult (tree.eval s.environment)], s)
        | .error e => ([.failure e], s)) ∧
    (isBinding text = true →
      (∃ err, s.parse text = .error err) ∧
      ∀ z, (s.process text).1 = .ok (.value z) → ∃ name body tree,
        tokenize text = .ok (.ident name :: .equals :: body) ∧
        Expr.ofTokens s.diagnostics body = .ok tree ∧ tree.eval s.environment = .ok z) ∧
    ∀ o : Options, o.input.isSome = true →
      (∀ stdin, (run o stdin).events = (trace o stdin).flatMap (Action.events o true)) ∧
      ∀ e : Step,
        (∀ name, e.Assigns name → ∃ z, (Action.call e).events o false = [.value z] ∧
          (Action.call e).events o true = []) ∧
        ((∀ name, ¬ e.Assigns name) →
          (Action.call e).events o true = (Action.call e).events o false) := by
  refine ⟨fun ts => isBinding_iff_mem, fun h => ?_, fun h => ?_, fun o h => ⟨fun stdin => ?_, ?_⟩⟩
  · exact ⟨Session.process_of_not_isBinding h s,
      fun o batch => runStatement_of_not_isBinding h o batch s⟩
  · refine ⟨Session.exists_parse_eq_error h s, fun z hz => ?_⟩
    obtain ⟨name, body, tree, htokens, htree, hvalue⟩ := Session.assigned_of_isBinding h hz
    exact ⟨name, body, tree, htokens, Grammar.ofTokens_eq_ok_iff.2 htree, hvalue⟩
  · rw [run_events, h]
  · intro e
    exact ⟨fun name hname => events_of_assigns hname o, fun hnone => events_of_not_assigns hnone o⟩

def doubled : Session := (Session.start false).finish ["x = 2"]

theorem equals_sign_tells_bindings_of_square :
    isBinding " x x" = false ∧
    (∃ tree z, doubled.parse " x x" = .ok tree ∧
      runStatement (sampleOptions.joined [" x x"]) true doubled " x x" =
        ([.tree tree, .value z], doubled)) ∧
    isBinding "x = 2" = true ∧
    (∃ err, (Session.start false).parse "x = 2" = .error err) ∧
    (⟨.start false, "x = 2"⟩ : Step).Assigns "x" ∧
    (Action.call ⟨.start false, "x = 2"⟩).events (sampleOptions.joined ["x = 2"]) true = [] := by
  have hexpression : isBinding " x x" = false := by decide
  have hbinding : isBinding "x = 2" = true := by decide
  have hassigns : (⟨.start false, "x = 2"⟩ : Step).Assigns "x" := by
    refine Step.assigns_iff.2 ⟨[.real 2], .number (.real 2), .real 2, by decide +kernel, ?_,
      Expr.eval_number _ _⟩
    exact .ofProduct (.ofPower (.ofAtom (.real 2)))
  obtain ⟨-, hsquare, -, -⟩ := equals_sign_tells_bindings doubled " x x"
  obtain ⟨-, -, hnone, hbatch⟩ := equals_sign_tells_bindings (.start false) "x = 2"
  obtain ⟨z, -, hhidden⟩ := (hbatch (sampleOptions.joined ["x = 2"]) rfl).2 _ |>.1 "x" hassigns
  refine ⟨hexpression, ?_, hbinding, (hnone hbinding).1, hassigns, hhidden⟩
  obtain ⟨hprocess, hrun⟩ := hsquare hexpression
  have hok : (doubled.process " x x").1.isOk = true := by decide +kernel
  obtain ⟨r, hr⟩ := exists_eq_ok hok
  rw [hprocess, map_eq_ok_iff] at hr
  obtain ⟨z, hz, -⟩ := hr
  obtain ⟨tree, htree, hvalue⟩ := bind_eq_ok_iff.1 hz
  rw [mapError_eq_ok_iff] at hvalue
  refine ⟨tree, z, htree, ?_⟩
  rw [hrun, htree]
  simp only [hvalue]
  rfl

end Console

end ComplexCalc
