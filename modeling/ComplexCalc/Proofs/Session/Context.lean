import ComplexCalc.Proofs.Session.Acceptance

/-! The tokens at fault in the errors of a session with diagnostics. The error of a tree shows
tokens unless none were there, also where the tree is only a part of the line; a line that is
rejected for its form shows none. -/

namespace ComplexCalc

structure SyntaxError.ShownIn (ts : List Token) (err : SyntaxError) : Prop where
  within : err.context <:+: ts
  context_eq_nil_iff : err.context = [] ↔
    err.fault = .noTokens ∨ err.fault = .assignment ∨ err.fault = .definition

namespace SyntaxError
variable {ts body : List Token} {err : SyntaxError}

theorem ShownIn.of_suffix (h : err.ShownIn body) (hbody : body <:+ ts) : err.ShownIn ts :=
  ⟨h.within.trans hbody.isInfix, h.context_eq_nil_iff⟩

theorem shownIn_of_ofForm (h : (Error.parse err).OfForm) (hcontext : err.context = []) :
    err.ShownIn ts :=
  ⟨hcontext ▸ List.nil_infix, iff_of_true hcontext (.inr h)⟩

theorem shownIn_of_ofTokens (h : Expr.ofTokens true ts = .error err) : err.ShownIn ts := by
  obtain ⟨hassignment, hdefinition⟩ := Grammar.fault_of_ofTokens h
  have hfault : (err.fault = .noTokens ∨ err.fault = .assignment ∨ err.fault = .definition) ↔
      err.fault = .noTokens := by simp [hassignment, hdefinition]
  rcases Grammar.ofTokens_eq_error h with ⟨hbal, rfl⟩ | ⟨-, hlocated⟩
  · have hne : ts ≠ [] := by
      rintro rfl
      cases hbal
    exact ⟨List.infix_rfl, iff_of_false hne (mt hfault.1 nofun)⟩
  · exact ⟨hlocated.within, hlocated.context_eq_nil_iff.trans hfault.symm⟩

end SyntaxError

namespace Session
variable {s : Session} {line : String} {ts body : List Token} {err : SyntaxError}

theorem shownIn_of_build (hs : s.diagnostics = true) (h : s.build ts = .error (.parse err)) :
    err.ShownIn ts := by
  rw [build, hs, mapError_eq_error_iff] at h
  obtain ⟨e, he, heq⟩ := h
  cases heq
  exact SyntaxError.shownIn_of_ofTokens he

theorem shownIn_of_evaluate (hs : s.diagnostics = true)
    (h : s.evaluate ts = .error (.parse err)) : err.ShownIn ts := by
  rw [evaluate, bind_eq_error_iff] at h
  rcases h with h | ⟨tree, -, h⟩
  · exact shownIn_of_build hs h
  · obtain ⟨halt, -, heq⟩ := mapError_eq_error_iff.1 h
    cases halt <;> cases heq

theorem shownIn_of_attempt (hs : s.diagnostics = true) (hts : tokenize line = .ok ts)
    (h : s.attempt line = .error (.parse err)) : err.ShownIn ts := by
  cases Line.form ts with
  | expression hno =>
    rw [attempt_expression hts hno, map_eq_error_iff] at h
    exact shownIn_of_evaluate hs h
  | assignment name body =>
    rw [attempt_assigns hts, map_eq_error_iff] at h
    exact (shownIn_of_evaluate hs h).of_suffix ((List.suffix_cons _ _).trans (List.suffix_cons _ _))
  | definition name body hps =>
    rw [attempt_defines hts hps, map_eq_error_iff] at h
    exact (shownIn_of_build hs h).of_suffix ((List.suffix_cons _ _).trans (List.suffix_append _ _))
  | misassigned hmis =>
    rw [attempt_misassigned hts hmis] at h
    cases h
    exact SyntaxError.shownIn_of_ofForm (.inl rfl) rfl
  | misdefined hmis =>
    rw [attempt_misdefined hts hmis] at h
    cases h
    exact SyntaxError.shownIn_of_ofForm (.inr rfl) rfl

/-- With diagnostics on, the context of a syntax error stands in the tokens of the line in one
piece. It is empty when there were no tokens, and when the line was rejected for its form, as a
malformed assignment or definition; in all other cases it is not. -/
theorem context_of_syntax_error (hs : s.diagnostics = true)
    (h : (s.process line).1 = .error (.parse err)) :
    ∃ ts, tokenize line = .ok ts ∧ err.context <:+: ts ∧
      (err.context = [] ↔
        err.fault = .noTokens ∨ err.fault = .assignment ∨ err.fault = .definition) := by
  have hattempt := answers_error_iff.1 h
  cases hts : tokenize line with
  | error e =>
    rw [attempt, hts] at hattempt
    cases hattempt
  | ok ts =>
    have hshown := shownIn_of_attempt hs hts hattempt
    exact ⟨ts, rfl, hshown.within, hshown.context_eq_nil_iff⟩

theorem context_of_syntax_error_in_body :
    (start true).diagnostics = true ∧
    ((start true).process "f(x) = 1 + (2 3)").1 =
      .error (.parse ⟨.noOperators, [.real 2, .real 3]⟩) ∧
    ∃ ts, tokenize "f(x) = 1 + (2 3)" = .ok ts ∧ [.real 2, .real 3] <:+: ts ∧
      (([.real 2, .real 3] : List Token) = [] ↔ SyntaxFault.noOperators = .noTokens ∨
        SyntaxFault.noOperators = .assignment ∨ SyntaxFault.noOperators = .definition) := by
  have hline : tokenize "f(x) = 1 + (2 3)" = .ok (Line.heading "f" ["x"] ++ .equals ::
      [.real 1, .op .add, .lparen, .real 2, .real 3, .rparen]) := by decide +kernel
  have hpair : Expr.ofRange true [.real 2, .real 3] =
      .error ⟨.noOperators, [.real 2, .real 3]⟩ := by
    rw [Expr.ofRange_eq]
    rfl
  have hgroup : Expr.ofRange true [.lparen, .real 2, .real 3, .rparen] =
      .error ⟨.noOperators, [.real 2, .real 3]⟩ := by
    rw [Expr.ofRange_eq]
    exact hpair
  have hbody : (start true).build [.real 1, .op .add, .lparen, .real 2, .real 3, .rparen] =
      .error (.parse ⟨.noOperators, [.real 2, .real 3]⟩) := by
    rw [build, Grammar.ofTokens_of_balanced rfl, Expr.ofRange_eq]
    exact congrArg (fun r => Except.mapError Error.parse (r >>= _)) hgroup
  have h : ((start true).process "f(x) = 1 + (2 3)").1 =
      .error (.parse ⟨.noOperators, [.real 2, .real 3]⟩) := by
    rw [answers_error_iff, attempt_defines hline (by decide), hbody]
    rfl
  exact ⟨rfl, h, context_of_syntax_error rfl h⟩

/-- Not every syntax error of a line with tokens shows some of them: that of `5 = 3` does not. -/
theorem context_missing_at_head :
    ¬ ∀ (s : Session) (line : String) (err : SyntaxError), s.Reachable → s.diagnostics = true →
      (s.process line).1 = .error (.parse err) → err.fault ≠ .noTokens →
      ∃ ts, tokenize line = .ok ts ∧ err.context ≠ [] ∧ err.context <:+: ts := by
  intro hall
  have hline : tokenize "5 = 3" = .ok [.real 5, .equals, .real 3] := by decide +kernel
  have hanswer : ((start true).process "5 = 3").1 = .error (.parse ⟨.assignment, []⟩) := by
    rw [answers_error_iff]
    exact attempt_misassigned hline ⟨.real 5, [.real 3], nofun, nofun, rfl⟩
  obtain ⟨ts, -, hne, -⟩ :=
    hall (start true) "5 = 3" ⟨.assignment, []⟩ ⟨true, [], rfl⟩ rfl hanswer nofun
  exact hne rfl

end Session

end ComplexCalc
