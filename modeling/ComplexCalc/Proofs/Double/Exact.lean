import ComplexCalc.Proofs.Double.Packing

/-! Operations whose exact result is a double. They are not rounded: the other operand is a zero, or
the factor is one. -/

namespace ComplexCalc.Double
open Float.Model Float.Model.UnpackedFloat

def IsZero (x : Float) : Prop := ∃ s, x.toModel.unpack = .zero s

def IsNonzero (x : Float) : Prop := ∃ s m e hm, x.toModel.unpack = .finite s m e hm

variable {x y z : Float} {m : Nat} {e : Int}

theorem IsZero.isFinite (h : IsZero x) : x.isFinite = true := by
  obtain ⟨s, hs⟩ := h
  show x.toModel.unpack.isFinite = true
  rw [hs]
  rfl

theorem IsNonzero.isFinite (h : IsNonzero x) : x.isFinite = true := by
  obtain ⟨s, m, e, hm, hx⟩ := h
  show x.toModel.unpack.isFinite = true
  rw [hx]
  rfl

theorem isZero_or_isNonzero (h : x.isFinite = true) : IsZero x ∨ IsNonzero x := by
  rcases unpack_cases (isFinite_iff.1 h) with hx | ⟨hm, hx⟩
  · exact .inl ⟨_, hx⟩
  · exact .inr ⟨_, _, _, hm, hx⟩

theorem not_isNaN_and_not_isInf (h : x.isFinite = true) : x.isNaN = false ∧ x.isInf = false := by
  show x.toModel.unpack.isNaN = false ∧ x.toModel.unpack.isInf = false
  rcases isZero_or_isNonzero h with ⟨s, hs⟩ | ⟨s, m, e, hm, hx⟩
  · rw [hs]
    exact ⟨rfl, rfl⟩
  · rw [hx]
    exact ⟨rfl, rfl⟩

theorem IsZero.not_isNonzero (h : IsZero x) : ¬ IsNonzero x := by
  rintro ⟨t, m, e, hm, hx⟩
  obtain ⟨s, hs⟩ := h
  rw [hs] at hx
  cases hx

theorem IsNonzero.unpack (hx : IsNonzero x) : Canonical (mantissa x) (exponent x) ∧
    ∃ hm, x.toModel.unpack = .finite (sign x) (mantissa x) (exponent x) hm := by
  have hfinite := isFinite_iff.1 hx.isFinite
  rcases unpack_cases hfinite with hzero | hunpack
  · exact absurd hx (IsZero.not_isNonzero ⟨_, hzero⟩)
  · exact ⟨canonical hfinite, hunpack⟩

theorem eq_of_unpack (hx : x.isFinite = true) {f : UnpackedFloat} (h : f = x.toModel.unpack) :
    Float.ofModel (Float.Model.pack f) = x := by
  rw [h]
  exact pack_unpack (isFinite_iff.1 hx)

theorem isZero_pack (s : Sign) : IsZero (Float.ofModel (Float.Model.pack (.zero s))) := by
  refine ⟨s, ?_⟩
  cases s <;> rfl

theorem isZero_zero : IsZero 0 := ⟨.positive, rfl⟩

theorem unpack_one :
    (1 : Float).toModel.unpack = .finite .positive (1 * 2 ^ 52) (0 - 52) (by decide) := rfl

theorem beq_self (h : x.isFinite = true) : (x == x) = true := by
  show (x.toModel.unpack.compare x.toModel.unpack == some .eq) = true
  rcases isZero_or_isNonzero h with ⟨s, hs⟩ | ⟨s, m, e, hm, hx⟩
  · rw [hs]
    rfl
  · rw [hx]
    cases s with
    | positive =>
      show (some ((compare e e).then (compare m m)) == some .eq) = true
      simp
    | negative =>
      show (some ((compare e e).then (compare m m)).swap == some .eq) = true
      simp

theorem beq_of_isZero (hx : IsZero x) (hy : IsZero y) : (x == y) = true := by
  obtain ⟨s, hs⟩ := hx
  obtain ⟨t, ht⟩ := hy
  show (x.toModel.unpack.compare y.toModel.unpack == some .eq) = true
  rw [hs, ht]
  rfl

theorem beq_zero_iff (h : x.isFinite = true) : (x == 0) = true ↔ IsZero x := by
  constructor
  · intro hbeq
    refine (isZero_or_isNonzero h).resolve_right ?_
    rintro ⟨s, m, e, hm, hx⟩
    have hcompare : (x.toModel.unpack.compare (.zero .positive) == some .eq) = true := hbeq
    rw [hx] at hcompare
    cases s <;> exact Bool.false_ne_true hcompare
  · exact fun hx => beq_of_isZero hx isZero_zero

theorem IsNonzero.absorbs (hx : IsNonzero x) (hz : IsZero z)
    (f : UnpackedFloat → UnpackedFloat → UnpackedFloat)
    (h : ∀ s m e hm t, f (.finite s m e hm) (.zero t) = .finite s m e hm) :
    Float.ofModel (Float.Model.pack (f x.toModel.unpack z.toModel.unpack)) = x := by
  have hfinite := hx.isFinite
  obtain ⟨s, m, e, hm, hx⟩ := hx
  obtain ⟨t, ht⟩ := hz
  apply eq_of_unpack hfinite
  rw [ht, hx]
  exact h s m e hm t

theorem IsNonzero.add_zero (hx : IsNonzero x) (hz : IsZero z) : x + z = x :=
  hx.absorbs hz (UnpackedFloat.add Format.binary64) fun _ _ _ _ _ => rfl

theorem IsNonzero.zero_add (hx : IsNonzero x) (hz : IsZero z) : z + x = x :=
  hx.absorbs hz (fun x z => UnpackedFloat.add Format.binary64 z x) fun _ _ _ _ _ => rfl

theorem IsNonzero.sub_zero (hx : IsNonzero x) (hz : IsZero z) : x - z = x :=
  hx.absorbs hz (UnpackedFloat.sub Format.binary64) fun _ _ _ _ _ => rfl

theorem IsNonzero.zero_sub (hx : IsNonzero x) (hz : IsZero z) : z - x = -x := by
  obtain ⟨s, m, e, hm, hx⟩ := hx
  obtain ⟨t, ht⟩ := hz
  show Float.ofModel (Float.Model.pack (UnpackedFloat.sub Format.binary64 z.toModel.unpack
    x.toModel.unpack)) = Float.ofModel (Float.Model.pack x.toModel.unpack.neg)
  rw [ht, hx]
  rfl

theorem IsZero.add (hx : IsZero x) (hy : IsZero y) : IsZero (x + y) := by
  obtain ⟨s, hs⟩ := hx
  obtain ⟨t, ht⟩ := hy
  show IsZero (Float.ofModel (Float.Model.pack (UnpackedFloat.add Format.binary64 x.toModel.unpack
    y.toModel.unpack)))
  rw [hs, ht]
  cases s <;> cases t <;> exact isZero_pack _

theorem IsZero.sub (hx : IsZero x) (hy : IsZero y) : IsZero (x - y) := by
  obtain ⟨s, hs⟩ := hx
  obtain ⟨t, ht⟩ := hy
  show IsZero (Float.ofModel (Float.Model.pack (UnpackedFloat.sub Format.binary64 x.toModel.unpack
    y.toModel.unpack)))
  rw [hs, ht]
  cases s <;> cases t <;> exact isZero_pack _

theorem IsZero.mul_of_isFinite (hz : IsZero z) (hx : x.isFinite = true) : IsZero (x * z) := by
  obtain ⟨t, ht⟩ := hz
  show IsZero (Float.ofModel (Float.Model.pack (UnpackedFloat.mul Format.binary64 x.toModel.unpack
    z.toModel.unpack)))
  rcases isZero_or_isNonzero hx with ⟨s, hs⟩ | ⟨s, m, e, hm, hx⟩
  · rw [hs, ht]
    exact isZero_pack _
  · rw [hx, ht]
    exact isZero_pack _

theorem targetExponent_eq (t : Int) : Format.binary64.targetExponent t = max (t - 53) (-1074) := by
  rw [Format.targetExponent]
  rfl

theorem Canonical.targetExponent_eq (h : Canonical m e) (hm : 0 < m) (k : Nat) :
    Format.binary64.targetExponent (totalExponent (m * 2 ^ k) (e - k)) = e := by
  have hpow : 0 < 2 ^ k := Nat.two_pow_pos k
  have hpos : m * 2 ^ k ≠ 0 := Nat.ne_of_gt (Nat.mul_pos hm hpow)
  have hlt : (m * 2 ^ k).log2 < 53 + k := by
    rw [Nat.log2_lt hpos, Nat.pow_add]
    exact Nat.mul_lt_mul_of_pos_right h.mantissa_lt hpow
  have hmin := h.le_exponent
  rw [Double.targetExponent_eq, totalExponent]
  rcases h.normal with hnormal | hsub
  · have hle : 52 + k ≤ (m * 2 ^ k).log2 := by
      rw [Nat.le_log2 hpos, Nat.pow_add]
      exact Nat.mul_le_mul_right _ hnormal
    omega
  · omega

theorem shiftRight_exact (m k : Nat) :
    ExtendedMantissa.ofMantissaAndAccuracy (m * 2 ^ k) .exact >>> k =
      ExtendedMantissa.ofMantissaAndAccuracy m .exact := by
  induction k generalizing m with
  | zero => rw [Nat.pow_zero, Nat.mul_one]; rfl
  | succ k ih =>
    show ExtendedMantissa.shiftRightOne
      (ExtendedMantissa.ofMantissaAndAccuracy (m * 2 ^ (k + 1)) .exact >>> k) = _
    rw [Nat.pow_succ', ← Nat.mul_assoc, ih]
    simp [ExtendedMantissa.shiftRightOne, ExtendedMantissa.ofMantissaAndAccuracy]

theorem Canonical.shift_exact (h : Canonical m e) (hm : 0 < m) (k : Nat) :
    shiftToTargetExponent Format.binary64 (m * 2 ^ k) (e - k) .exact =
      (ExtendedMantissa.ofMantissaAndAccuracy m .exact, e) := by
  have hamount : (e - (e - (k : Int))).toNat = k := by omega
  rw [shiftToTargetExponent, h.targetExponent_eq hm, shiftToExponent, hamount, shiftRight_exact]
  congr 1
  omega

theorem round_of_shifts {f : Format} {a : Accuracy} {p q : ExtendedMantissa × Int}
    (hp : shiftToTargetExponent f m e a = p)
    (hq : shiftToTargetExponent f p.1.roundedMantissa p.2 .exact = q) (hm : 0 < q.1.mantissa)
    (s : Sign) : roundWithAccuracy f s m e a = .finite s q.1.mantissa q.2 hm := by
  subst hp hq
  exact dif_neg (Nat.ne_of_gt hm)

/-- A mantissa and exponent that fit are not rounded. -/
theorem Canonical.round_exact (h : Canonical m e) (hm : 0 < m) (s : Sign) (k : Nat) :
    roundWithAccuracy Format.binary64 s (m * 2 ^ k) (e - k) .exact = .finite s m e hm := by
  have hrest := h.shift_exact hm 0
  rw [Nat.pow_zero, Nat.mul_one, Int.natCast_zero, Int.sub_zero] at hrest
  exact round_of_shifts (h.shift_exact hm k) hrest hm s

theorem IsNonzero.mul_one (hx : IsNonzero x) : x * 1 = x := by
  obtain ⟨hcanonical, hm, hunpack⟩ := hx.unpack
  apply eq_of_unpack hx.isFinite
  rw [hunpack, unpack_one]
  have hround := hcanonical.round_exact hm (sign x) 52
  have hsign : sign x * Sign.positive = sign x := by cases sign x <;> rfl
  have hexponent : exponent x + (0 - 52) = exponent x - (52 : Nat) := by omega
  -- the product is `mantissa x * 2 ^ 52` at 52 places below the exponent
  refine Eq.trans ?_ hround
  show roundWithAccuracy Format.binary64 (sign x * .positive) (mantissa x * (1 * 2 ^ 52))
    (exponent x + (0 - 52)) .exact = _
  rw [hsign, Nat.one_mul, hexponent]

end ComplexCalc.Double
