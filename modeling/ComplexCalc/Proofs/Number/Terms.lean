import ComplexCalc.Number.Text
import ComplexCalc.Proofs.Decimal.ReadBack
import ComplexCalc.Proofs.Double.Sign
import ComplexCalc.Proofs.Evaluation.Values
import ComplexCalc.Proofs.Grammar.Parsing
import ComplexCalc.Proofs.Lexical.Reading

/-! The two terms that the text of a number is made of: a double with or without a sign in front,
and a double that the imaginary unit follows. -/

namespace ComplexCalc.Number
open Double Grammar

variable {x b : Float} {rest : List Char} {ts : List Token}

/-- A double that is written as it is; the zero with the sign is not. -/
def Written (x : Float) : Prop := x = 0 ∨ IsNonzero x

theorem Written.isFinite (hx : Written x) : x.isFinite = true := by
  rcases hx with rfl | hx
  · rfl
  · exact hx.isFinite

theorem Written.of_not_negative (hx : x.isFinite = true) (h : isNegative x = false) :
    Written x := by
  rcases unpack_cases (isFinite_iff.1 hx) with hzero | ⟨hm, hunpack⟩
  · have hsign : sign x = .positive := by rw [sign, h]; rfl
    rw [hsign] at hzero
    exact .inl (eq_of_unpack hx hzero.symm).symm
  · exact .inr ⟨_, _, _, hm, hunpack⟩

theorem Written.abs_of_not_negative (hx : Written x) (h : isNegative x = false) : x.abs = x := by
  rcases hx with rfl | hx
  · rfl
  · exact hx.abs_of_not_negative h

theorem Written.isNonzero_of_negative (hx : Written x) (h : isNegative x = true) :
    IsNonzero x := by
  rcases hx with rfl | hx
  · exact absurd h (by decide)
  · exact hx

theorem text_of_not_negative (hx : Written x) (h : isNegative x = false) :
    (Decimal.text x).toList = (Decimal.shortest x).chars := by
  obtain ⟨hnan, hinf⟩ := not_isNaN_and_not_isInf hx.isFinite
  simp only [Decimal.text, hnan, hinf, h, hx.abs_of_not_negative h, Bool.false_eq_true, if_false,
    String.toList_append, String.toList_ofList]
  rfl

theorem text_of_negative (hx : IsNonzero x) (h : isNegative x = true) :
    (Decimal.text x).toList = '-' :: (Decimal.shortest (-x)).chars := by
  obtain ⟨hnan, hinf⟩ := not_isNaN_and_not_isInf hx.isFinite
  simp only [Decimal.text, hnan, hinf, h, hx.abs_of_negative h, Bool.false_eq_true, if_false,
    if_true, String.toList_append, String.toList_ofList]
  rfl

def Apart (rest : List Char) : Prop :=
  ∀ x ∈ rest.head?, x.isDigit = false ∧ x ≠ '.' ∧ x ≠ 'e' ∧ x ≠ 'E'

theorem reads_digits (hx : Written x) (h : isNegative x = false) (hrest : Apart rest)
    (hts : Reads rest ts) : Reads ((Decimal.text x).toList ++ rest) (.real x :: ts) := by
  obtain ⟨hplain, hvalue⟩ := Decimal.shortest_reads_back (isFinite_iff.1 hx.isFinite) h
  have hreads := Reads.literal hplain hrest hts
  rw [hvalue] at hreads
  rwa [text_of_not_negative hx h]

def termTokens (x : Float) : List Token :=
  if isNegative x then [.op .sub, .real (-x)] else [.real x]

theorem reads_term (hx : Written x) (hrest : Apart rest) (hts : Reads rest ts) :
    Reads ((Decimal.text x).toList ++ rest) (termTokens x ++ ts) := by
  rw [termTokens]
  cases h : isNegative x with
  | false => exact reads_digits hx h hrest hts
  | true =>
    have hnonzero := hx.isNonzero_of_negative h
    have hneg : isNegative (-x) = false := by rw [hnonzero.isNegative_neg, h]; rfl
    have hreads := reads_digits (.inr hnonzero.neg) hneg hrest hts
    rw [text_of_not_negative (.inr hnonzero.neg) hneg] at hreads
    rw [text_of_negative hnonzero h]
    exact Reads.symbol rfl hreads

theorem reads_unit : Reads ['i'] [.constant .i] := by
  have hreads : Reads ('i' :: [] ++ []) [Token.ofWord (String.ofList ['i'])] :=
    Reads.word (by decide +kernel) nofun nofun .nil
  exact hreads

theorem apart_unit : Apart ['i'] := by
  intro x hx
  cases hx
  decide

theorem apart_blank (rest : List Char) : Apart (' ' :: rest) := by
  intro x hx
  cases hx
  decide

def termTree (x : Float) : Expr :=
  if isNegative x then .binary .sub (.number .zero) (.number (.real (-x))) else .number (.real x)

def unitTree (b : Float) : Expr := .binary .mul (.number (.real b)) (.constant .i)

theorem isProduct_real (x : Float) : IsProduct [.real x] (.number (.real x)) :=
  .ofPower (.ofAtom (.real x))

theorem isSum_term (x : Float) : IsSum (termTokens x) (termTree x) := by
  rw [termTokens, termTree]
  split
  · exact .signed (.inr rfl) (isProduct_real _)
  · exact .ofProduct (isProduct_real x)

theorem isProduct_unit (b : Float) :
    IsProduct [.real b, .op .mul, .constant .i] (unitTree b) :=
  .binary (l := [.real b]) (.inl rfl) (isProduct_real b) (.ofAtom (.constant .i))

theorem eval_term (hx : Written x) (env : Environment) :
    ∃ t, IsZero t ∧ (termTree x).eval env = .ok ⟨x, t⟩ := by
  rw [termTree]
  cases h : isNegative x with
  | false => exact ⟨0, isZero_zero, Expr.eval_number env (.real x)⟩
  | true =>
    have hnonzero := hx.isNonzero_of_negative h
    refine ⟨0 - 0, isZero_zero.sub isZero_zero, ?_⟩
    have hvalue : Operator.sub.apply .zero (.real (-x)) = ⟨x, 0 - 0⟩ := by
      show (⟨0 - -x, 0 - 0⟩ : Number) = _
      rw [hnonzero.neg.zero_sub isZero_zero, hnonzero.neg_neg]
    rw [← hvalue]
    exact Expr.eval_binary .sub (Expr.eval_number env _) (Expr.eval_number env _)

theorem eval_unit (hb : IsNonzero b) (env : Environment) :
    ∃ t, IsZero t ∧ (unitTree b).eval env = .ok ⟨t, b⟩ := by
  -- the sign of this zero is that of `b`, but no zero changes a sum with the other part
  have hre : IsZero (b * 0 - 0 * 1) :=
    (isZero_zero.mul_of_isFinite hb.isFinite).sub ⟨.positive, rfl⟩
  refine ⟨b * 0 - 0 * 1, hre, ?_⟩
  have hvalue : Operator.mul.apply (.real b) .unit = ⟨b * 0 - 0 * 1, b⟩ := by
    show (⟨b * 0 - 0 * 1, b * 1 + 0 * 0⟩ : Number) = _
    rw [hb.mul_one, hb.add_zero (isZero_zero.mul_of_isFinite rfl)]
  rw [← hvalue]
  exact Expr.eval_binary .mul (Expr.eval_number env _) (Expr.eval_constant env .i)

end ComplexCalc.Number
