import ComplexCalc.Proofs.Number.Terms
import ComplexCalc.Proofs.Session.Step

/-! The text of a finite number is a line whose value is that number. -/

namespace ComplexCalc.Session
open Double Number Grammar

variable {s : Session} {z : Number} {x b : Float} {line : String} {ts : List Token} {e : Expr}

theorem process_expression (hline : tokenize line = .ok ts) (hno : .equals ∉ ts)
    (hsum : IsSum ts e) (heval : e.eval s.environment = .ok z) :
    s.process line = (.ok (.value z), s) := by
  rw [process_of_not_mem hline hno, evaluate_eq_ok_iff.2 ⟨e, hsum, heval⟩]
  rfl

def part (x : Float) : Float := if x == 0 then 0 else x

theorem part_of_isZero (hx : IsZero x) : part x = 0 :=
  if_pos ((beq_zero_iff hx.isFinite).2 hx)

theorem part_of_isNonzero (hx : IsNonzero x) : part x = x :=
  if_neg fun h => ((beq_zero_iff hx.isFinite).1 h).not_isNonzero hx

theorem written_part (hx : x.isFinite = true) : Written (part x) := by
  rcases isZero_or_isNonzero hx with hx | hx
  · exact .inl (part_of_isZero hx)
  · rw [part_of_isNonzero hx]
    exact .inr hx

theorem part_beq (hx : x.isFinite = true) : (part x == x) = true := by
  rcases isZero_or_isNonzero hx with hx | hx
  · rw [part_of_isZero hx]
    exact beq_of_isZero isZero_zero hx
  · rw [part_of_isNonzero hx]
    exact beq_self hx.isFinite

theorem equals_not_mem_term (x : Float) : .equals ∉ termTokens x := by
  rw [termTokens]
  split <;> simp

theorem process_real (hx : Written x) (hline : line.toList = (Decimal.text x).toList) :
    ∃ t, IsZero t ∧ s.process line = (.ok (.value ⟨x, t⟩), s) := by
  have hreads : Reads line.toList (termTokens x) := by
    have happ : Reads ((Decimal.text x).toList ++ []) (termTokens x ++ []) :=
      reads_term hx nofun .nil
    rwa [List.append_nil, List.append_nil, ← hline] at happ
  have htokens : Token.withProducts (termTokens x) = termTokens x := by
    rw [termTokens]
    split <;> rfl
  obtain ⟨t, ht, heval⟩ := eval_term hx s.environment
  refine ⟨t, ht, process_expression ?_ (equals_not_mem_term x) (isSum_term x) heval⟩
  rw [hreads.tokenize_eq, htokens]

theorem process_imaginary (hb : IsNonzero b)
    (hline : line.toList = (Decimal.text b).toList ++ ['i']) :
    ∃ t, IsZero t ∧ s.process line = (.ok (.value ⟨t, b⟩), s) := by
  have hreads : Reads line.toList (termTokens b ++ [.constant .i]) := by
    rw [hline]
    exact reads_term (.inr hb) apart_unit reads_unit
  cases h : isNegative b with
  | false =>
    have htokens : tokenize line = .ok [.real b, .op .mul, .constant .i] := by
      rw [hreads.tokenize_eq, termTokens, h]
      rfl
    obtain ⟨t, ht, heval⟩ := eval_unit hb s.environment
    exact ⟨t, ht, process_expression htokens (by simp) (.ofProduct (isProduct_unit b)) heval⟩
  | true =>
    have htokens : tokenize line = .ok [.op .sub, .real (-b), .op .mul, .constant .i] := by
      rw [hreads.tokenize_eq, termTokens, h]
      rfl
    -- the sign is an operator, so the value is zero less the term without it
    obtain ⟨t, ht, heval⟩ := eval_unit hb.neg s.environment
    have hsum := Expr.eval_binary .sub (Expr.eval_number s.environment .zero) heval
    have hvalue : Operator.sub.apply .zero ⟨t, -b⟩ = ⟨0 - t, b⟩ := by
      show (⟨0 - t, 0 - -b⟩ : Number) = _
      rw [hb.neg.zero_sub isZero_zero, hb.neg_neg]
    rw [hvalue] at hsum
    exact ⟨0 - t, isZero_zero.sub ht,
      process_expression htokens (by simp) (.signed (.inr rfl) (isProduct_unit (-b))) hsum⟩

theorem process_sum {o : Operator} {c : Char} (hx : IsNonzero x) (hb : IsNonzero b)
    (hneg : isNegative b = false) (ho : o = .add ∨ o = .sub)
    (hc : Token.ofSymbol? c = some (.op o))
    (hline : line.toList =
      (Decimal.text x).toList ++ (' ' :: c :: ' ' :: ((Decimal.text b).toList ++ ['i']))) :
    ∃ t t', IsZero t ∧ IsZero t' ∧
      s.process line = (.ok (.value (o.apply ⟨x, t⟩ ⟨t', b⟩)), s) := by
  have hreads : Reads line.toList (termTokens x ++ [.op o, .real b, .constant .i]) := by
    have hblank : Text.isBlank ' ' = true := by decide
    rw [hline]
    apply reads_term (.inr hx) (apart_blank _)
    apply Reads.blank hblank
    apply Reads.symbol hc
    apply Reads.blank hblank
    exact reads_digits (.inr hb) hneg apart_unit reads_unit
  have htokens : tokenize line =
      .ok (termTokens x ++ .op o :: [.real b, .op .mul, .constant .i]) := by
    rw [hreads.tokenize_eq, termTokens]
    split <;> rfl
  have hno : .equals ∉ termTokens x ++ .op o :: [.real b, .op .mul, .constant .i] := by
    simp [equals_not_mem_term]
  obtain ⟨t, ht, hterm⟩ := eval_term (.inr hx) s.environment
  obtain ⟨t', ht', hunit⟩ := eval_unit hb s.environment
  exact ⟨t, t', ht, ht', process_expression htokens hno
    (.binary ho (isSum_term x) (isProduct_unit b)) (Expr.eval_binary o hterm hunit)⟩

theorem text_eq (z : Number) : z.text.toList =
    if z.im == 0 then (Decimal.text (part z.re)).toList
    else if part z.re == 0 then (Decimal.text z.im).toList ++ ['i']
    else if z.im < 0 then
      (Decimal.text (part z.re)).toList ++
        (' ' :: '-' :: ' ' :: ((Decimal.text (-z.im)).toList ++ ['i']))
    else (Decimal.text (part z.re)).toList ++
      (' ' :: '+' :: ' ' :: ((Decimal.text z.im).toList ++ ['i'])) := by
  rw [text]
  show String.toList (if z.im == 0 then _ else if part z.re == 0 then _ else _) = _
  split
  · rfl
  · split
    · simp
    · split <;> simp [part]

/-- The text of a number with finite parts, as a line of any session, answers a number whose parts
are equal to its parts, and changes nothing. -/
theorem process_text (s : Session) (z : Number) (hre : z.re.isFinite = true)
    (him : z.im.isFinite = true) : ∃ w : Number,
    s.process z.text = (.ok (.value w), s) ∧ (w.re == z.re) = true ∧ (w.im == z.im) = true := by
  have htext := text_eq z
  rcases isZero_or_isNonzero him with himz | himn
  · rw [if_pos ((beq_zero_iff him).2 himz)] at htext
    obtain ⟨t, ht, hprocess⟩ := process_real (s := s) (written_part hre) htext
    exact ⟨_, hprocess, part_beq hre, beq_of_isZero ht himz⟩
  · rw [if_neg fun h => ((beq_zero_iff him).1 h).not_isNonzero himn] at htext
    rcases isZero_or_isNonzero hre with hrez | hren
    · rw [part_of_isZero hrez, if_pos (beq_of_isZero isZero_zero isZero_zero)] at htext
      obtain ⟨t, ht, hprocess⟩ := process_imaginary (s := s) himn htext
      exact ⟨_, hprocess, beq_of_isZero ht hrez, beq_self him⟩
    · rw [part_of_isNonzero hren, if_neg fun h => ((beq_zero_iff hre).1 h).not_isNonzero hren]
        at htext
      split at htext
      · rename_i hlt
        have hneg : isNegative (-z.im) = false := by
          rw [himn.isNegative_neg, himn.lt_zero_iff.1 hlt]
          rfl
        obtain ⟨t, t', ht, ht', hprocess⟩ :=
          process_sum (s := s) hren himn.neg hneg (.inr rfl) rfl htext
        refine ⟨_, hprocess, ?_, ?_⟩
        · show (z.re - t' == z.re) = true
          rw [hren.sub_zero ht']
          exact beq_self hre
        · show (t - -z.im == z.im) = true
          rw [himn.neg.zero_sub ht, himn.neg_neg]
          exact beq_self him
      · rename_i hlt
        have hneg : isNegative z.im = false := by
          rw [himn.lt_zero_iff] at hlt
          exact Bool.not_eq_true _ ▸ hlt
        obtain ⟨t, t', ht, ht', hprocess⟩ :=
          process_sum (s := s) hren himn hneg (.inl rfl) rfl htext
        refine ⟨_, hprocess, ?_, ?_⟩
        · show (z.re + t' == z.re) = true
          rw [hren.add_zero ht']
          exact beq_self hre
        · show (t + z.im == z.im) = true
          rw [himn.zero_add ht]
          exact beq_self him

theorem process_text_of_bound_unit :
    (-1.5 : Float).isFinite = true ∧ (2 : Float).isFinite = true ∧ ∃ w : Number,
      process ⟨(∅ : Variables).insert "i" .one, ∅, false⟩ (text ⟨-1.5, 2⟩) =
        (.ok (.value w), ⟨(∅ : Variables).insert "i" .one, ∅, false⟩) ∧
      (w.re == -1.5) = true ∧ (w.im == 2) = true := by
  have hre : (-1.5 : Float).isFinite = true := by decide +kernel
  have him : (2 : Float).isFinite = true := by decide +kernel
  exact ⟨hre, him, process_text _ ⟨-1.5, 2⟩ hre him⟩

end ComplexCalc.Session
