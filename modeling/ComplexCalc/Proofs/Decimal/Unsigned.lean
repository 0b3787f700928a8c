import ComplexCalc.Decimal.Literal
import ComplexCalc.Proofs.Double.Exact

/-! Literals have no sign: what they denote is a double without the sign bit, infinite if it is too
large, and never NaN. -/

namespace ComplexCalc.Double
open Float.Model Float.Model.UnpackedFloat

structure Unsigned (x : Float) : Prop where
  not_isNaN : x.isNaN = false
  not_isNegative : isNegative x = false

variable {x : Float} {n : Nat}

theorem Unsigned.isFinite (hx : Unsigned x) (h : x.isInf = false) : x.isFinite = true := by
  have hnan : x.toModel.unpack.isNaN = false := hx.not_isNaN
  have hinf : x.toModel.unpack.isInf = false := h
  show x.toModel.unpack.isFinite = true
  cases hunpack : x.toModel.unpack with
  | notANumber => rw [hunpack] at hnan; cases hnan
  | infinity s => rw [hunpack] at hinf; cases hinf
  | zero s => rfl
  | finite s m e hm => rfl

theorem exists_toBits (h : n < 2047 * leadingBit) : ∃ x : Float, x.toBits.toNat = n := by
  have hbit : leadingBit = 2 ^ 52 := by decide
  have hbits : (UInt64.ofNat n).toNat = n := by
    rw [UInt64.toNat_ofNat']
    omega
  -- only bits with the greatest exponent can be those of a NaN
  have hvalid : Format.binary64.Valid (UInt64.ofNat n).toBitVec := by
    refine ⟨fun hmax => ?_⟩
    have hexponent := toNat_unpackExponent (UInt64.ofNat n).toBitVec
    rw [hmax] at hexponent
    have hdiv : 2047 = (UInt64.ofNat n).toNat / 2 ^ 52 % 2 ^ 11 := hexponent
    omega
  exact ⟨.ofModel ⟨UInt64.ofNat n, hvalid⟩, hbits⟩

theorem unsigned_infinity : Unsigned infinity where
  not_isNaN := by decide +kernel
  not_isNegative := by decide +kernel

theorem unsigned_ofBits (h : n ≤ 2047 * leadingBit) : Unsigned (Float.ofBits (UInt64.ofNat n)) := by
  rcases Nat.lt_or_eq_of_le h with hlt | rfl
  · have hbit : leadingBit = 2 ^ 52 := by decide
    obtain ⟨x, hx⟩ := exists_toBits hlt
    have hstored : storedExponent x ≠ 2047 := by
      rw [storedExponent, hx, Nat.shiftRight_eq_div_pow]
      omega
    have hself : Float.ofBits (UInt64.ofNat n) = x := by
      rw [← hx, UInt64.ofNat_toNat, ofBits_toBits hstored]
    rw [hself]
    refine ⟨(not_isNaN_and_not_isInf (isFinite_iff.2 hstored)).1, ?_⟩
    rw [isNegative, hx, Nat.shiftRight_eq_div_pow, beq_eq_false_iff_ne]
    omega
  · exact unsigned_infinity

theorem unsigned_ofParts (m : Nat) (e : Int) : Unsigned (ofParts m e) :=
  unsigned_ofBits (Nat.min_le_right _ _)

theorem unsigned_ofRatio (num den : Nat) : Unsigned (ofRatio num den) := by
  rw [ofRatio]
  split <;> exact unsigned_ofParts _ _

end ComplexCalc.Double

namespace ComplexCalc.Decimal
open Double

theorem unsigned_nearest (n size : Nat) (scale : Int) : Unsigned (nearest n size scale) := by
  rw [nearest]
  split
  · exact unsigned_ofParts _ _
  · split
    · exact unsigned_infinity
    · exact unsigned_ofRatio _ _

theorem Literal.unsigned_value (l : Literal) : Unsigned l.value := unsigned_nearest _ _ _

end ComplexCalc.Decimal
