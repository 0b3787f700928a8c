import ComplexCalc.Double.Parts
import Mathlib.Algebra.Group.Nat.Defs

/-! A double as sign, mantissa and exponent: what its bits are, and that a finite double is what its
parts are packed to. -/

namespace ComplexCalc.Double
open Float.Model Float.Model.UnpackedFloat

theorem toNat_unpackMantissa (b : BitVec Format.binary64.numBits) :
    (unpackMantissa b).toNat = b.toNat % 2 ^ 52 := by
  simp [unpackMantissa]

theorem toNat_unpackExponent (b : BitVec Format.binary64.numBits) :
    (unpackExponent b).toNat = b.toNat / 2 ^ 52 % 2 ^ 11 := by
  simp [unpackExponent, Nat.shiftRight_eq_div_pow]

theorem toNat_unpackSign (b : BitVec Format.binary64.numBits) :
    (unpackSign b).toNat = b.toNat / 2 ^ 63 := by
  have hlt : b.toNat < 2 ^ 64 := b.isLt
  show (b.extractLsb 63 63).toNat = _
  rw [BitVec.extractLsb_toNat, Nat.shiftRight_eq_div_pow]
  omega

theorem toNat_packComponents (s : Sign) (e : BitVec 11) (m : BitVec 52) :
    (packComponents Format.binary64 s e m).toNat =
      (s.toBitVec.toNat * 2 ^ 11 + e.toNat) * 2 ^ 52 + m.toNat := by
  simp only [packComponents, BitVec.toNat_append]
  rw [← Nat.shiftLeft_add_eq_or_of_lt m.isLt, ← Nat.shiftLeft_add_eq_or_of_lt e.isLt]
  simp [Nat.shiftLeft_eq]

/-- Whether a mantissa and an exponent are those of a finite double. -/
structure Canonical (m : Nat) (e : Int) : Prop where
  mantissa_lt : m < 2 ^ 53
  le_exponent : -1074 ≤ e
  exponent_le : e ≤ 971
  normal : 2 ^ 52 ≤ m ∨ e = -1074

theorem toNat_pack_finite {s : Sign} {m : Nat} {e : Int} (h : Canonical m e) (hm : 0 < m) :
    (pack Format.binary64 (.finite s m e hm)).toNat =
      s.toBitVec.toNat * 2 ^ 63 + ((e + 1074).toNat * 2 ^ 52 + m) := by
  obtain ⟨hlt, hle, hge, hnormal⟩ := h
  have hbias : (e + (Format.binary64.exponentBias : Int) +
      (Format.binary64.mantissaBitsWithoutImplicit : Int)).toNat = (e + 1075).toNat := by
    rw [show (Format.binary64.exponentBias : Int) = 1023 by decide]
    show (e + 1023 + 52).toNat = _
    omega
  have hfits : ¬ 2 ^ Format.binary64.exponentBits ≤ (e + 1075).toNat + 1 := by
    show ¬ 2 ^ 11 ≤ (e + 1075).toNat + 1
    omega
  show BitVec.toNat (if _ ≤ (e + (Format.binary64.exponentBias : Int) +
    (Format.binary64.mantissaBitsWithoutImplicit : Int)).toNat + 1 then _ else _) = _
  rw [hbias, if_neg hfits]
  -- the leading bit of a normal mantissa is not stored
  by_cases hm52 : 2 ^ 52 ≤ m
  · have hlog : m.log2 + 1 = Format.binary64.mantissaBits := by
      have := (Nat.log2_lt (by omega : m ≠ 0)).2 hlt
      have := (Nat.le_log2 (by omega : m ≠ 0)).2 hm52
      show m.log2 + 1 = 53
      omega
    rw [if_pos hlog, toNat_packComponents, BitVec.toNat_ofNat, BitVec.toNat_ofNat]
    show (_ * 2 ^ 11 + (e + 1075).toNat % 2 ^ 11) * 2 ^ 52 + m % 2 ^ 52 = _
    omega
  · have hlog : ¬ m.log2 + 1 = Format.binary64.mantissaBits := by
      have := (Nat.log2_lt (by omega : m ≠ 0)).2 (by omega : m < 2 ^ 52)
      show ¬ m.log2 + 1 = 53
      omega
    rw [if_neg hlog, toNat_packComponents, BitVec.toNat_ofNat]
    show (_ * 2 ^ 11 + 0) * 2 ^ 52 + m % 2 ^ 52 = _
    omega

def sign (x : Float) : Sign := if isNegative x then .negative else .positive

variable {x : Float}

theorem canonical (h : storedExponent x ≠ 2047) : Canonical (mantissa x) (exponent x) := by
  have hlt : storedExponent x < 2048 := Nat.mod_lt _ (by decide)
  have hfraction : fraction x < 2 ^ 52 := Nat.mod_lt _ (by decide)
  have hbit : leadingBit = 2 ^ 52 := by decide
  unfold mantissa exponent
  split <;> constructor <;> omega

theorem toNat_toBits (x : Float) : x.toBits.toNat =
    (sign x).toBitVec.toNat * 2 ^ 63 + (storedExponent x * 2 ^ 52 + fraction x) := by
  have hlt : x.toBits.toNat < 2 ^ 64 := x.toBits.toBitVec.isLt
  have hbit : leadingBit = 2 ^ 52 := by decide
  have hsign : (sign x).toBitVec.toNat = x.toBits.toNat / 2 ^ 63 := by
    rw [sign, isNegative, Nat.shiftRight_eq_div_pow]
    split
    · rename_i h
      rw [beq_iff_eq] at h
      rw [h]
      rfl
    · rename_i h
      rw [beq_iff_eq] at h
      show 0 = _
      omega
  rw [hsign, storedExponent, fraction, Nat.shiftRight_eq_div_pow, hbit]
  omega

def packed (x : Float) : BitVec Format.binary64.numBits := x.toModel.toBits.toBitVec

theorem toNat_exponent (x : Float) : (unpackExponent (packed x)).toNat = storedExponent x := by
  rw [toNat_unpackExponent, storedExponent, Nat.shiftRight_eq_div_pow]
  rfl

theorem toNat_fraction (x : Float) : (unpackMantissa (packed x)).toNat = fraction x := by
  rw [toNat_unpackMantissa]
  rfl

theorem ofBitVec_sign (x : Float) : Sign.ofBitVec (unpackSign (packed x)) = sign x := by
  have hlt : (packed x).toNat < 2 ^ 64 := (packed x).isLt
  have hsign := toNat_unpackSign (packed x)
  have hbits : x.toBits.toNat = (packed x).toNat := rfl
  rw [sign, isNegative, Nat.shiftRight_eq_div_pow, hbits, ← hsign, Sign.ofBitVec]
  obtain hb | hb : unpackSign (packed x) = 0#1 ∨ unpackSign (packed x) = 1#1 := by
    generalize unpackSign (packed x) = b
    revert b
    decide
  · rw [hb]
    rfl
  · rw [hb]
    rfl

theorem exponent_eq_max_iff : unpackExponent (packed x) = -1#_ ↔ storedExponent x = 2047 := by
  rw [← BitVec.toNat_inj, toNat_exponent]
  rfl

theorem exponent_eq_zero_iff : unpackExponent (packed x) = 0#_ ↔ storedExponent x = 0 := by
  rw [← BitVec.toNat_inj, toNat_exponent]
  rfl

theorem fraction_eq_zero_iff : unpackMantissa (packed x) = 0#_ ↔ fraction x = 0 := by
  rw [← BitVec.toNat_inj, toNat_fraction]
  rfl

theorem finite_congr {s : Sign} {m m' : Nat} {e e' : Int} {hm : 0 < m} {hm' : 0 < m'} (h : m = m')
    (he : e = e') : UnpackedFloat.finite s m e hm = .finite s m' e' hm' := by
  subst h he
  rfl

theorem unpack_eq (h : storedExponent x ≠ 2047) : x.toModel.unpack =
    if hm : mantissa x = 0 then .zero (sign x)
    else .finite (sign x) (mantissa x) (exponent x) (Nat.pos_of_ne_zero hm) := by
  show UnpackedFloat.unpack Format.binary64 (packed x) = _
  show (if unpackExponent (packed x) = -1#_ then _ else _) = _
  rw [if_neg (mt exponent_eq_max_iff.1 h), ofBitVec_sign]
  by_cases he : storedExponent x = 0
  · have hm : mantissa x = fraction x := if_pos he
    have hexp : exponent x = -1074 := if_pos he
    rw [if_pos (exponent_eq_zero_iff.2 he)]
    by_cases hf : fraction x = 0
    · rw [dif_pos (fraction_eq_zero_iff.2 hf), dif_pos (hm.trans hf)]
    · rw [dif_neg (mt fraction_eq_zero_iff.1 hf), dif_neg (by rwa [hm])]
      apply finite_congr
      · rw [toNat_fraction, hm]
      · rw [toNat_exponent, he, hexp]
        rfl
  · have hm : mantissa x = leadingBit + fraction x := if_neg he
    have hexp : exponent x = storedExponent x - 1075 := if_neg he
    have hbit : leadingBit = 2 ^ 52 := by decide
    rw [if_neg (mt exponent_eq_zero_iff.1 he), dif_neg (by rw [hm, hbit]; omega)]
    have hmant : (1#1 ++ unpackMantissa (packed x)).toNat = leadingBit + fraction x := by
      rw [BitVec.toNat_append, ← Nat.shiftLeft_add_eq_or_of_lt (BitVec.isLt _), toNat_fraction]
      rfl
    apply finite_congr
    · rw [hmant, hm]
    · rw [toNat_exponent, hexp]
      rfl

theorem unpack_cases (h : storedExponent x ≠ 2047) : x.toModel.unpack = .zero (sign x) ∨
    ∃ hm, x.toModel.unpack = .finite (sign x) (mantissa x) (exponent x) hm := by
  rw [unpack_eq h]
  by_cases hm : mantissa x = 0
  · exact .inl (dif_pos hm)
  · exact .inr ⟨_, dif_neg hm⟩

theorem isFinite_iff : x.isFinite = true ↔ storedExponent x ≠ 2047 := by
  show x.toModel.unpack.isFinite = true ↔ _
  by_cases h : storedExponent x = 2047
  · show (UnpackedFloat.unpack Format.binary64 (packed x)).isFinite = true ↔ _
    show UnpackedFloat.isFinite (if unpackExponent (packed x) = -1#_ then _ else _) = true ↔ _
    rw [if_pos (exponent_eq_max_iff.2 h)]
    split <;> exact iff_of_false Bool.false_ne_true (not_not_intro h)
  · rcases unpack_cases h with hx | ⟨hm, hx⟩
    · rw [hx]
      exact iff_of_true rfl h
    · rw [hx]
      exact iff_of_true rfl h

theorem stored_parts (x : Float) :
    (exponent x + 1074).toNat * 2 ^ 52 + mantissa x = storedExponent x * 2 ^ 52 + fraction x := by
  have hbit : leadingBit = 2 ^ 52 := by decide
  unfold mantissa exponent
  split <;> omega

theorem eq_of_toModel {y : Float} (h : x.toModel = y.toModel) : x = y := by
  cases x
  cases y
  cases h
  rfl

theorem toModel_eq_of_toNat {f : UnpackedFloat}
    (h : (UnpackedFloat.pack Format.binary64 f).toNat = x.toBits.toNat) :
    Float.ofModel (Float.Model.pack f) = x := by
  have hbits : UInt64.ofBitVec (UnpackedFloat.pack Format.binary64 f) = x.toModel.toBits :=
    UInt64.toNat_inj.1 h
  have hmodel : Float.Model.pack f = x.toModel := by
    rw [Float.Model.pack]
    cases hx : x.toModel
    rw [hx] at hbits
    cases hbits
    rfl
  exact eq_of_toModel hmodel

theorem pack_unpack (h : storedExponent x ≠ 2047) :
    Float.ofModel (Float.Model.pack x.toModel.unpack) = x := by
  apply toModel_eq_of_toNat
  rw [toNat_toBits, ← stored_parts x, unpack_eq h]
  by_cases hm : mantissa x = 0
  · have he : (exponent x + 1074).toNat = 0 := by
      rcases (canonical h).normal with hle | hmin
      · omega
      · rw [hmin]
        rfl
    have hzero : UnpackedFloat.pack Format.binary64 (.zero (sign x)) =
        packedZero Format.binary64 (sign x) := rfl
    rw [dif_pos hm, hzero, packedZero, toNat_packComponents, hm, he]
    show (_ * 2 ^ 11 + 0) * 2 ^ 52 + 0 = _
    omega
  · rw [dif_neg hm]
    exact toNat_pack_finite (canonical h) _

theorem ofBits_toBits (h : storedExponent x ≠ 2047) : Float.ofBits x.toBits = x := pack_unpack h

theorem ofParts_mantissa_exponent (h : storedExponent x ≠ 2047) (hx : isNegative x = false) :
    ofParts (mantissa x) (exponent x) = x := by
  have hbit : leadingBit = 2 ^ 52 := by decide
  have hlt : storedExponent x < 2048 := Nat.mod_lt _ (by decide)
  have hfraction : fraction x < 2 ^ 52 := Nat.mod_lt _ (by decide)
  have hsign : sign x = .positive := by rw [sign, hx]; rfl
  have hbits := toNat_toBits x
  rw [hsign] at hbits
  have hparts : (exponent x + 1074).toNat * leadingBit + mantissa x = x.toBits.toNat := by
    rw [hbits, hbit, stored_parts]
    show _ = 0 * 2 ^ 63 + _
    omega
  have hmin : min x.toBits.toNat (2047 * leadingBit) = x.toBits.toNat := by
    rw [hbits, hbit]
    show min (0 * 2 ^ 63 + _) _ = 0 * 2 ^ 63 + _
    omega
  rw [ofParts, hparts, hmin, UInt64.ofNat_toNat, ofBits_toBits h]

end ComplexCalc.Double
