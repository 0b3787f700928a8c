import ComplexCalc.Proofs.Grammar.Faults
import ComplexCalc.Proofs.Grammar.Neighbours
import ComplexCalc.Proofs.Session.Run

/-! Which lines a session accepts, by their tokens, and which of the others it rejects for their
form. -/

namespace ComplexCalc
open Grammar

def Error.OfForm : Error → Prop
  | parse e => e.fault = .assignment ∨ e.fault = .definition
  | lex _ | eval _ | endless => False

namespace Session
variable {s s' : Session} {line : String} {r : Reply} {ts : List Token} {err : Error} {z : Number}

theorem not_ofForm_of_build (h : s.build ts = .error err) : ¬ err.OfForm := by
  rw [build, mapError_eq_error_iff] at h
  obtain ⟨e, he, rfl⟩ := h
  exact not_or.2 (fault_of_ofTokens he)

theorem not_ofForm_of_evaluate (h : s.evaluate ts = .error err) : ¬ err.OfForm := by
  rw [evaluate, bind_eq_error_iff] at h
  rcases h with h | ⟨tree, -, h⟩
  · exact not_ofForm_of_build h
  · obtain ⟨halt, -, rfl⟩ := mapError_eq_error_iff.1 h
    cases halt <;> exact id

theorem misformed_of_attempt (hts : tokenize line = .ok ts) (h : s.attempt line = .error err)
    (hform : err.OfForm) :
    (err = .parse ⟨.assignment, []⟩ ∧ Line.Misassigned ts) ∨
      (err = .parse ⟨.definition, []⟩ ∧ Line.Misdefined ts) := by
  cases Line.form ts with
  | expression hno =>
    rw [attempt_expression hts hno, map_eq_error_iff] at h
    exact absurd hform (not_ofForm_of_evaluate h)
  | assignment name body =>
    rw [attempt_assigns hts, map_eq_error_iff] at h
    exact absurd hform (not_ofForm_of_evaluate h)
  | definition name body hps =>
    rw [attempt_defines hts hps, map_eq_error_iff] at h
    exact absurd hform (not_ofForm_of_build h)
  | misassigned hmis =>
    rw [attempt_misassigned hts hmis] at h
    cases h
    exact .inl ⟨rfl, hmis⟩
  | misdefined hmis =>
    rw [attempt_misdefined hts hmis] at h
    cases h
    exact .inr ⟨rfl, hmis⟩

theorem count_equals_of_attempt (hts : tokenize line = .ok ts)
    (h : s.attempt line = .ok (r, s')) : ts.count .equals ≤ 1 := by
  obtain ⟨ts', hts', hshape⟩ := attempt_eq_ok h
  cases hts.symm.trans hts'
  rcases hshape with ⟨hno, -⟩ | ⟨name, body, z, rfl, hz, -⟩ |
    ⟨name, ps, body, tree, rfl, -, htree, -⟩
  · rw [List.count_eq_zero.2 hno]
    exact Nat.zero_le 1
  · obtain ⟨tree, htree, -⟩ := evaluate_eq_ok_iff.1 hz
    have hname : Token.ident name ≠ .equals := Token.noConfusion
    rw [List.count_cons_of_ne hname, List.count_cons_self, List.count_eq_zero.2 htree.tidy.equals]
  · rw [List.count_append, List.count_eq_zero.2 Line.equals_not_mem_heading, List.count_cons_self,
      List.count_eq_zero.2 (build_eq_ok_iff.1 htree).tidy.equals]

theorem answers_defined_iff (hts : tokenize line = .ok ts) : (s.process line).1 = .ok .defined ↔
    ∃ name ps body tree, ps.Nodup ∧ ts = Line.heading name ps ++ .equals :: body ∧
      IsSum body tree := by
  rw [answers_ok_iff]
  constructor
  · rintro ⟨s', h⟩
    obtain ⟨ts', hts', ⟨-, ⟨z, -, hr⟩, -⟩ | ⟨name, body, z, -, -, hr, -⟩ |
      ⟨name, ps, body, tree, rfl, hps, htree, -⟩⟩ := attempt_eq_ok h
    · cases hr
    · cases hr
    · cases hts.symm.trans hts'
      exact ⟨name, ps, body, tree, hps, rfl, build_eq_ok_iff.1 htree⟩
  · rintro ⟨name, ps, body, tree, hps, rfl, htree⟩
    rw [attempt_defines hts hps, build_eq_ok_iff.2 htree]
    exact ⟨_, rfl⟩

theorem answers_value_iff_of_mem (hts : tokenize line = .ok ts) (hmem : .equals ∈ ts) :
    (s.process line).1 = .ok (.value z) ↔ ∃ name body tree, ts = .ident name :: .equals :: body ∧
      IsSum body tree ∧ tree.eval s.environment = .ok z := by
  rw [answers_ok_iff]
  constructor
  · rintro ⟨s', h⟩
    obtain ⟨ts', hts', ⟨hno, -⟩ | ⟨name, body, w, rfl, hw, hr, -⟩ |
      ⟨name, ps, body, tree, -, -, -, hr, -⟩⟩ := attempt_eq_ok h
    · cases hts.symm.trans hts'
      exact absurd hmem hno
    · cases hts.symm.trans hts'
      cases hr
      obtain ⟨tree, htree, hz⟩ := evaluate_eq_ok_iff.1 hw
      exact ⟨name, body, tree, rfl, htree, hz⟩
    · cases hr
  · rintro ⟨name, body, tree, rfl, htree, hz⟩
    rw [attempt_assigns hts, evaluate_eq_ok_iff.2 ⟨tree, htree, hz⟩]
    exact ⟨_, rfl⟩

/-- A line that is not made of tokens fails for that. Any other line defines a function just if it
is a name with distinct parameters, an equals sign and a tree. It has a value just if it is a
name, an equals sign and a tree with that value, or a tree with that value and no equals sign.
With two equals signs it fails. It is a malformed assignment if its first equals sign follows one
token that is no name, and a malformed definition if it follows anything else that is no head of
one. Whether the trees are built with diagnostics, `d`, does not matter. -/
theorem accepts_three_shapes (s : Session) (d : Bool) (line : String) :
    (∀ e, tokenize line = .error e → (s.process line).1 = .error (.lex e)) ∧
    ∀ ts, tokenize line = .ok ts →
      ((s.process line).1 = .ok .defined ↔
        ∃ name ps body tree, ps.Nodup ∧ ts = Line.heading name ps ++ .equals :: body ∧
          Expr.ofTokens d body = .ok tree) ∧
      (∀ z, .equals ∈ ts → ((s.process line).1 = .ok (.value z) ↔
        ∃ name body tree, ts = .ident name :: .equals :: body ∧
          Expr.ofTokens d body = .ok tree ∧ tree.eval s.environment = .ok z)) ∧
      (∀ z, .equals ∉ ts → ((s.process line).1 = .ok (.value z) ↔
        ∃ tree, Expr.ofTokens d ts = .ok tree ∧ tree.eval s.environment = .ok z)) ∧
      (2 ≤ ts.count .equals → ∃ err, (s.process line).1 = .error err) ∧
      (∀ context, (s.process line).1 = .error (.parse ⟨.assignment, context⟩) ↔
        context = [] ∧ Line.Misassigned ts) ∧
      (∀ context, (s.process line).1 = .error (.parse ⟨.definition, context⟩) ↔
        context = [] ∧ Line.Misdefined ts) := by
  refine ⟨fun e he => ?_, fun ts hts => ?_⟩
  · rw [answers_error_iff, attempt, he]
    rfl
  simp only [ofTokens_eq_ok_iff]
  refine ⟨answers_defined_iff hts, fun z => answers_value_iff_of_mem hts,
    fun z => answers_value_iff_of_not_mem hts, fun htwo => ?_, fun context => ?_, fun context => ?_⟩
  · cases hattempt : s.attempt line with
    | error err => exact ⟨err, answers_error_iff.2 hattempt⟩
    | ok p =>
      have hone := count_equals_of_attempt hts hattempt
      omega
  · rw [answers_error_iff]
    constructor
    · intro h
      rcases misformed_of_attempt hts h (.inl rfl) with ⟨herr, hmis⟩ | ⟨herr, -⟩
      · cases herr
        exact ⟨rfl, hmis⟩
      · cases herr
    · rintro ⟨rfl, hmis⟩
      exact attempt_misassigned hts hmis
  · rw [answers_error_iff]
    constructor
    · intro h
      rcases misformed_of_attempt hts h (.inr rfl) with ⟨herr, -⟩ | ⟨herr, hmis⟩
      · cases herr
      · cases herr
        exact ⟨rfl, hmis⟩
    · rintro ⟨rfl, hmis⟩
      exact attempt_misdefined hts hmis

/-- After `x = 2` and `f(y) = y * x`, one line of each shape, and one that is rejected for each
reason. A definition may use a name that is not bound. -/
theorem accepts_three_shapes_before_reassignment :
    (reassignment.before.process "1 $").1 = .error (.lex (.unexpectedChar '$')) ∧
    (reassignment.before.process "g(y, z) = w").1 = .ok .defined ∧
    (reassignment.before.process "y = f(3)").1 = .ok (.value (.real 6)) ∧
    (reassignment.before.process "f(x)").1 = .ok (.value (.real 4)) ∧
    (∃ err, (reassignment.before.process "y = x = 1").1 = .error err) ∧
    (reassignment.before.process "5 = 3").1 = .error (.parse ⟨.assignment, []⟩) ∧
    (reassignment.before.process "g(y, y) = 1").1 = .error (.parse ⟨.definition, []⟩) := by
  have h (line : String) := accepts_three_shapes reassignment.before false line
  have htree {body : List Token} {tree : Expr} (hatom : IsAtom body tree) :
      Expr.ofTokens false body = .ok tree :=
    ofTokens_eq_ok_iff.2 (.ofProduct (.ofPower (.ofAtom hatom)))
  have hcall {t : Token} {arg : Expr} (hatom : IsAtom [t] arg) :
      IsAtom [.ident "f", .lparen, t, .rparen] (.call "f" [arg]) :=
    .call "f" (.one (.ofProduct (.ofPower (.ofAtom hatom))))
  refine ⟨(h _).1 _ (by decide +kernel), ?_, ?_, ?_, ?_, ?_, ?_⟩
  · obtain ⟨hdefined, -⟩ := (h "g(y, z) = w").2
      (Line.heading "g" ["y", "z"] ++ [.equals, .ident "w"]) (by decide +kernel)
    exact hdefined.2 ⟨"g", ["y", "z"], _, _, by decide, rfl, htree (.ident "w")⟩
  · obtain ⟨-, hassigned, -⟩ := (h "y = f(3)").2
      [.ident "y", .equals, .ident "f", .lparen, .real 3, .rparen] (by decide +kernel)
    exact (hassigned _ (by decide)).2 ⟨"y", _, _, rfl, htree (hcall (.real 3)), by decide +kernel⟩
  · obtain ⟨-, -, hvalue, -⟩ := (h "f(x)").2 [.ident "f", .lparen, .ident "x", .rparen]
      (by decide +kernel)
    exact (hvalue _ (by decide)).2 ⟨_, htree (hcall (.ident "x")), by decide +kernel⟩
  · obtain ⟨-, -, -, htwo, -⟩ := (h "y = x = 1").2
      [.ident "y", .equals, .ident "x", .equals, .real 1] (by decide +kernel)
    exact htwo (by decide)
  · obtain ⟨-, -, -, -, hassignment, -⟩ := (h "5 = 3").2 [.real 5, .equals, .real 3]
      (by decide +kernel)
    exact (hassignment []).2
      ⟨rfl, .real 5, [.real 3], Token.noConfusion, fun _ => Token.noConfusion, rfl⟩
  · obtain ⟨-, -, -, -, -, hdefinition⟩ := (h "g(y, y) = 1").2
      (Line.heading "g" ["y", "y"] ++ [.equals, .real 1]) (by decide +kernel)
    refine (hdefinition []).2
      ⟨rfl, Line.heading "g" ["y", "y"], [.real 1], by decide, by decide, ?_, rfl⟩
    intro name ps hps hheading
    have hnone : Line.signature? (Line.heading "g" ["y", "y"]) = none := by decide
    cases (Line.signature?_eq_some_iff.2 ⟨hps, hheading⟩).symm.trans hnone

end Session

end ComplexCalc
