import ComplexCalc.Proofs.Environment.Functions
import ComplexCalc.Proofs.Grammar.Parsing
import ComplexCalc.Proofs.Session.Shape
import ComplexCalc.Session.Basic

/-! What one line does to a session: nothing, or it binds one variable, or it defines one overload.
-/

namespace ComplexCalc.Session
open Grammar

variable {s s' : Session} {line : String} {r : Reply} {ts head body : List Token} {tree : Expr}
  {z : Number}

theorem build_eq_ok_iff : s.build ts = .ok tree ↔ IsSum ts tree := by
  rw [build, mapError_eq_ok_iff, ofTokens_eq_ok_iff]

theorem evaluate_eq_ok_iff :
    s.evaluate ts = .ok z ↔ ∃ tree, IsSum ts tree ∧ tree.eval s.environment = .ok z := by
  rw [evaluate, bind_eq_ok_iff]
  simp only [build_eq_ok_iff, mapError_eq_ok_iff]

theorem attempt_expression (h : tokenize line = .ok ts) (hts : .equals ∉ ts) :
    s.attempt line = (s.evaluate ts).map fun z => (.value z, s) := by
  simp only [attempt, h, Except.mapError, bind, Except.bind, Line.ofTokens_of_not_mem hts]
  cases s.evaluate ts <;> rfl

theorem attempt_assignment {target : Token} (h : tokenize line = .ok (target :: .equals :: body))
    (ht : target ≠ .equals) :
    s.attempt line = (s.assign target body).map fun p => (.value p.1, p.2) := by
  simp only [attempt, h, Except.mapError, bind, Except.bind, Line.ofTokens_assignment ht]
  cases s.assign target body <;> rfl

theorem attempt_definition (h : tokenize line = .ok (head ++ .equals :: body))
    (hhead : .equals ∉ head) (hlen : head.length ≠ 1) :
    s.attempt line = (s.define head body).map (.defined, ·) := by
  simp only [attempt, h, Except.mapError, bind, Except.bind,
    Line.ofTokens_definition hhead hlen]
  cases s.define head body <;> rfl

theorem assign_ident (s : Session) (name : String) (body : List Token) :
    s.assign (.ident name) body =
      (s.evaluate body).map fun z => (z, { s with vars := s.vars.insert name z }) := by
  rw [assign]
  cases s.evaluate body <;> rfl

theorem assign_of_forall_ne {target : Token} (h : ∀ name, target ≠ .ident name) :
    s.assign target body = .error (.parse ⟨.assignment, []⟩) := by
  unfold assign
  split
  · rename_i name
    exact absurd rfl (h name)
  · rfl

theorem define_heading {name : String} {ps : List String} (hps : ps.Nodup) :
    s.define (Line.heading name ps) body = (s.build body).map fun e =>
      { s with functions := s.functions.define name ⟨ps, e⟩ } := by
  rw [define, Line.signature?_eq_some_iff.2 ⟨hps, rfl⟩]
  cases s.build body <;> rfl

theorem define_eq_ok (h : s.define head body = .ok s') :
    ∃ name ps, ps.Nodup ∧ head = Line.heading name ps := by
  unfold define at h
  split at h
  · rename_i name ps hsignature
    exact ⟨name, ps, Line.signature?_eq_some_iff.1 hsignature⟩
  · cases h

theorem define_of_forall_ne (h : ∀ name ps, ps.Nodup → head ≠ Line.heading name ps) :
    s.define head body = .error (.parse ⟨.definition, []⟩) := by
  unfold define
  split
  · rename_i name ps hsignature
    obtain ⟨hps, hhead⟩ := Line.signature?_eq_some_iff.1 hsignature
    exact absurd hhead (h name ps hps)
  · rfl

theorem attempt_assigns {name : String}
    (h : tokenize line = .ok (.ident name :: .equals :: body)) :
    s.attempt line = (s.evaluate body).map fun z =>
      (.value z, { s with vars := s.vars.insert name z }) := by
  have hname : Token.ident name ≠ .equals := Token.noConfusion
  rw [attempt_assignment h hname, assign_ident]
  cases s.evaluate body <;> rfl

theorem attempt_defines {name : String} {ps : List String}
    (h : tokenize line = .ok (Line.heading name ps ++ .equals :: body)) (hps : ps.Nodup) :
    s.attempt line = (s.build body).map fun e =>
      (.defined, { s with functions := s.functions.define name ⟨ps, e⟩ }) := by
  rw [attempt_definition h Line.equals_not_mem_heading Line.length_heading_ne_one,
    define_heading hps]
  cases s.build body <;> rfl

theorem attempt_misassigned (h : tokenize line = .ok ts) (hmis : Line.Misassigned ts) :
    s.attempt line = .error (.parse ⟨.assignment, []⟩) := by
  obtain ⟨t, body, ht, hname, rfl⟩ := hmis
  rw [attempt_assignment h ht, assign_of_forall_ne hname]
  rfl

theorem attempt_misdefined (h : tokenize line = .ok ts) (hmis : Line.Misdefined ts) :
    s.attempt line = .error (.parse ⟨.definition, []⟩) := by
  obtain ⟨head, body, hhead, hlen, hheading, rfl⟩ := hmis
  rw [attempt_definition h hhead hlen, define_of_forall_ne hheading]
  rfl

theorem attempt_eq_ok (h : s.attempt line = .ok (r, s')) : ∃ ts, tokenize line = .ok ts ∧
    ((.equals ∉ ts ∧ (∃ z, s.evaluate ts = .ok z ∧ r = .value z) ∧ s' = s) ∨
    (∃ name body z, ts = .ident name :: .equals :: body ∧ s.evaluate body = .ok z ∧
      r = .value z ∧ s' = { s with vars := s.vars.insert name z }) ∨
    ∃ name ps body e, ts = Line.heading name ps ++ .equals :: body ∧ ps.Nodup ∧
      s.build body = .ok e ∧ r = .defined ∧
      s' = { s with functions := s.functions.define name ⟨ps, e⟩ }) := by
  have htokens := h
  rw [attempt, bind_eq_ok_iff] at htokens
  obtain ⟨ts, hts, -⟩ := htokens
  rw [mapError_eq_ok_iff] at hts
  refine ⟨ts, hts, ?_⟩
  cases Line.form ts with
  | expression hno =>
    rw [attempt_expression hts hno, map_eq_ok_iff] at h
    obtain ⟨z, hz, heq⟩ := h
    cases heq
    exact .inl ⟨hno, ⟨z, hz, rfl⟩, rfl⟩
  | assignment name body =>
    rw [attempt_assigns hts, map_eq_ok_iff] at h
    obtain ⟨z, hz, heq⟩ := h
    cases heq
    exact .inr (.inl ⟨name, body, z, rfl, hz, rfl, rfl⟩)
  | definition name body hps =>
    rw [attempt_defines hts hps, map_eq_ok_iff] at h
    obtain ⟨e, he, heq⟩ := h
    cases heq
    exact .inr (.inr ⟨name, _, body, e, rfl, hps, he, rfl, rfl⟩)
  | misassigned hmis =>
    rw [attempt_misassigned hts hmis] at h
    cases h
  | misdefined hmis =>
    rw [attempt_misdefined hts hmis] at h
    cases h

theorem process_fst (s : Session) (line : String) :
    (s.process line).1 = (s.attempt line).map Prod.fst := by
  rw [process]
  cases s.attempt line <;> rfl

theorem answers_ok_iff : (s.process line).1 = .ok r ↔ ∃ s', s.attempt line = .ok (r, s') := by
  rw [process_fst, map_eq_ok_iff]
  constructor
  · rintro ⟨⟨_, s'⟩, h, rfl⟩
    exact ⟨s', h⟩
  · rintro ⟨s', h⟩
    exact ⟨_, h, rfl⟩

theorem answers_error_iff {err : Error} :
    (s.process line).1 = .error err ↔ s.attempt line = .error err := by
  rw [process_fst, map_eq_error_iff]

theorem process_of_not_mem (h : tokenize line = .ok ts) (hno : .equals ∉ ts) :
    s.process line = ((s.evaluate ts).map .value, s) := by
  rw [process, attempt_expression h hno]
  cases s.evaluate ts <;> rfl

theorem answers_value_iff_of_not_mem (h : tokenize line = .ok ts) (hno : .equals ∉ ts) :
    (s.process line).1 = .ok (.value z) ↔
      ∃ tree, IsSum ts tree ∧ tree.eval s.environment = .ok z := by
  rw [process_of_not_mem h hno, map_eq_ok_iff, ← evaluate_eq_ok_iff]
  simp

end ComplexCalc.Session
