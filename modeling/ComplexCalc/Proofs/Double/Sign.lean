import ComplexCalc.Proofs.Double.Exact

/-! The sign of a finite double: how it is told, and what negation and the absolute value do. -/

namespace ComplexCalc.Double
open Float.Model Float.Model.UnpackedFloat

variable {x : Float} {m : Nat} {e : Int} {s : Sign}

theorem parts_of_toBits {y : Float} (h : Canonical m e)
    (hbits : y.toBits.toNat = s.toBitVec.toNat * 2 ^ 63 + ((e + 1074).toNat * 2 ^ 52 + m)) :
    storedExponent y ≠ 2047 ∧ sign y = s ∧ mantissa y = m ∧ exponent y = e := by
  obtain ⟨hlt, hmin, hmax, hnormal⟩ := h
  have hbit : leadingBit = 2 ^ 52 := by decide
  have hs : s.toBitVec.toNat < 2 := s.toBitVec.isLt
  have hstored : storedExponent y = if m < 2 ^ 52 then 0 else (e + 1075).toNat := by
    rw [storedExponent, Nat.shiftRight_eq_div_pow, hbits]
    split <;> omega
  have hfraction : fraction y = if m < 2 ^ 52 then m else m - 2 ^ 52 := by
    rw [fraction, hbits, hbit]
    split <;> omega
  have hsign : sign y = s := by
    rw [sign, isNegative, Nat.shiftRight_eq_div_pow, hbits]
    have hdiv : (s.toBitVec.toNat * 2 ^ 63 + ((e + 1074).toNat * 2 ^ 52 + m)) / 2 ^ 63 =
        s.toBitVec.toNat := by omega
    rw [hdiv]
    cases s <;> rfl
  refine ⟨?_, hsign, ?_, ?_⟩
  · rw [hstored]
    split <;> omega
  · rw [mantissa, hstored, hfraction, hbit]
    split <;> split <;> omega
  · rw [exponent, hstored]
    split <;> split at * <;> omega

theorem unpack_of_parts {y : Float} (hstored : storedExponent y ≠ 2047) (hsign : sign y = s)
    (hmantissa : mantissa y = m) (hexponent : exponent y = e) (hm : 0 < m) :
    y.toModel.unpack = .finite s m e hm := by
  subst hsign hmantissa hexponent
  rw [unpack_eq hstored, dif_neg (Nat.ne_of_gt hm)]

theorem unpack_pack (h : Canonical m e) (hm : 0 < m) (s : Sign) :
    (Float.ofModel (Float.Model.pack (.finite s m e hm))).toModel.unpack = .finite s m e hm := by
  obtain ⟨hstored, hsign, hmantissa, hexponent⟩ :=
    parts_of_toBits (y := Float.ofModel (Float.Model.pack (.finite s m e hm))) h
      (toNat_pack_finite h hm)
  exact unpack_of_parts hstored hsign hmantissa hexponent hm

theorem sign_neg_iff : isNegative x = true ↔ sign x = .negative := by
  rw [sign]
  cases isNegative x <;> simp

theorem sign_of_unpack {hm : 0 < m} (h : x.toModel.unpack = .finite s m e hm) : sign x = s := by
  have hx : IsNonzero x := ⟨_, _, _, _, h⟩
  obtain ⟨-, hm', hunpack⟩ := hx.unpack
  rw [h] at hunpack
  cases hunpack
  rfl

theorem IsNonzero.unpack_neg (hx : IsNonzero x) :
    ∃ hm, (-x).toModel.unpack = .finite (-sign x) (mantissa x) (exponent x) hm := by
  obtain ⟨hcanonical, hm, hunpack⟩ := hx.unpack
  refine ⟨hm, ?_⟩
  have hneg : -x = Float.ofModel (Float.Model.pack x.toModel.unpack.neg) := rfl
  rw [hneg, hunpack]
  exact unpack_pack hcanonical hm _

theorem IsNonzero.neg (hx : IsNonzero x) : IsNonzero (-x) := by
  obtain ⟨hm, hunpack⟩ := hx.unpack_neg
  exact ⟨_, _, _, hm, hunpack⟩

theorem IsNonzero.isNegative_neg (hx : IsNonzero x) : isNegative (-x) = !isNegative x := by
  obtain ⟨hm, hunpack⟩ := hx.unpack_neg
  have hsign := sign_of_unpack hunpack
  rw [sign, sign] at hsign
  revert hsign
  cases isNegative x <;> cases isNegative (-x) <;> simp

theorem IsNonzero.neg_neg (hx : IsNonzero x) : - -x = x := by
  obtain ⟨-, hm, hunpack⟩ := hx.unpack
  obtain ⟨hm', hneg⟩ := hx.unpack_neg
  apply eq_of_unpack hx.isFinite
  rw [hneg, hunpack]
  show UnpackedFloat.finite (- -sign x) _ _ _ = _
  cases sign x <;> rfl

theorem IsNonzero.abs_of_not_negative (hx : IsNonzero x) (h : isNegative x = false) :
    x.abs = x := by
  obtain ⟨-, hm, hunpack⟩ := hx.unpack
  apply eq_of_unpack hx.isFinite
  rw [hunpack, sign, h]
  rfl

theorem IsNonzero.abs_of_negative (hx : IsNonzero x) (h : isNegative x = true) :
    x.abs = -x := by
  obtain ⟨-, hm, hunpack⟩ := hx.unpack
  show Float.ofModel (Float.Model.pack x.toModel.unpack.abs) =
    Float.ofModel (Float.Model.pack x.toModel.unpack.neg)
  rw [hunpack, sign, h]
  rfl

theorem IsNonzero.lt_zero_iff (hx : IsNonzero x) : x < 0 ↔ isNegative x = true := by
  obtain ⟨-, hm, hunpack⟩ := hx.unpack
  have hlt : x < 0 ↔ (x.toModel.unpack.compare (.zero .positive) == some .lt) = true :=
    decide_eq_true_iff
  rw [hlt, hunpack, sign_neg_iff]
  cases sign x with
  | positive => exact iff_of_false Bool.false_ne_true Sign.noConfusion
  | negative => exact iff_of_true rfl rfl

end ComplexCalc.Double
