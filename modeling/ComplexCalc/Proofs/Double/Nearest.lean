import ComplexCalc.Double.Ratio
import ComplexCalc.Proofs.Double.Packing
import Mathlib.Algebra.Order.Field.Power
import Mathlib.Data.Rat.Cast.Order
import Mathlib.Tactic.FieldSimp
import Mathlib.Tactic.Linarith
import Mathlib.Tactic.Positivity

/-! A ratio that is a double is not rounded. -/

namespace ComplexCalc.Double
variable {num den m : Nat} {e : Int}

theorem two_zpow_eq (e : Int) : (2 : ℚ) ^ e = 2 ^ e.toNat / 2 ^ (-e).toNat := by
  rw [eq_div_iff (by positivity), ← zpow_natCast, ← zpow_natCast, ← zpow_add₀ (by norm_num)]
  congr 1
  omega

theorem shift_le_iff (hden : 0 < den) :
    den <<< e.toNat ≤ num <<< (-e).toNat ↔ (2 : ℚ) ^ e ≤ num / den := by
  have hden' : (0 : ℚ) < den := by exact_mod_cast hden
  rw [two_zpow_eq, div_le_div_iff₀ (by positivity) hden', Nat.shiftLeft_eq, Nat.shiftLeft_eq,
    mul_comm den]
  exact_mod_cast Iff.rfl

theorem binade_bounds (hnum : 0 < num) (hden : 0 < den) :
    (2 : ℚ) ^ binade num den ≤ num / den ∧ (num / den : ℚ) < 2 ^ (binade num den + 1) := by
  have hden' : (0 : ℚ) < den := by exact_mod_cast hden
  have hnumle : (2 : ℚ) ^ (num.log2 : Int) ≤ num := by
    exact_mod_cast Nat.log2_self_le (Nat.ne_of_gt hnum)
  have hnumlt : (num : ℚ) < 2 ^ ((num.log2 : Int) + 1) := by
    exact_mod_cast Nat.lt_log2_self (n := num)
  have hdenle : (2 : ℚ) ^ (den.log2 : Int) ≤ den := by
    exact_mod_cast Nat.log2_self_le (Nat.ne_of_gt hden)
  have hdenlt : (den : ℚ) < 2 ^ ((den.log2 : Int) + 1) := by
    exact_mod_cast Nat.lt_log2_self (n := den)
  have hupper : (num / den : ℚ) < 2 ^ ((num.log2 : Int) - den.log2 + 1) := by
    rw [div_lt_iff₀ hden']
    calc (num : ℚ) < 2 ^ ((num.log2 : Int) + 1) := hnumlt
      _ = 2 ^ ((num.log2 : Int) - den.log2 + 1) * 2 ^ (den.log2 : Int) := by
        rw [← zpow_add₀ (by norm_num)]
        congr 1
        omega
      _ ≤ 2 ^ ((num.log2 : Int) - den.log2 + 1) * den :=
        mul_le_mul_of_nonneg_left hdenle (by positivity)
  have hlower : (2 : ℚ) ^ ((num.log2 : Int) - den.log2 - 1) ≤ num / den := by
    rw [le_div_iff₀ hden']
    calc (2 : ℚ) ^ ((num.log2 : Int) - den.log2 - 1) * den
        ≤ 2 ^ ((num.log2 : Int) - den.log2 - 1) * 2 ^ ((den.log2 : Int) + 1) :=
          mul_le_mul_of_nonneg_left hdenlt.le (by positivity)
      _ = 2 ^ (num.log2 : Int) := by
        rw [← zpow_add₀ (by norm_num)]
        congr 1
        omega
      _ ≤ num := hnumle
  rw [binade]
  split
  · rename_i h
    exact ⟨(shift_le_iff hden).1 h, hupper⟩
  · rename_i h
    refine ⟨hlower, ?_⟩
    rw [shift_le_iff hden, not_le] at h
    rwa [Int.sub_add_cancel]

theorem nearestDiv_mul (m : Nat) (hden : 0 < den) : nearestDiv (m * den) den = m := by
  have hlt : compare (2 * (m * den % den)) den = .lt := by
    rw [Nat.mul_mod_left, Nat.mul_zero, Nat.compare_eq_lt]
    exact hden
  rw [nearestDiv, hlt]
  exact Nat.mul_div_cancel m hden

theorem ofRatio_eq_ofParts (h : Canonical m e) (hm : 0 < m) (hden : 0 < den)
    (hratio : num * 2 ^ (-e).toNat = m * (den * 2 ^ e.toNat)) : ofRatio num den = ofParts m e := by
  have hnum : 0 < num := by
    rw [Nat.pos_iff_ne_zero]
    rintro rfl
    have : 0 < m * (den * 2 ^ e.toNat) := by positivity
    omega
  have hden' : (0 : ℚ) < den := by exact_mod_cast hden
  have hvalue : (num / den : ℚ) = m * 2 ^ e := by
    have hcast : (num * 2 ^ (-e).toNat : ℚ) = m * (den * 2 ^ e.toNat) := by exact_mod_cast hratio
    rw [two_zpow_eq]
    field_simp
    linarith
  obtain ⟨hle, hlt⟩ := binade_bounds hnum hden
  rw [hvalue] at hle hlt
  have hbelow : binade num den < 53 + e := by
    rw [← zpow_lt_zpow_iff_right₀ (one_lt_two : (1 : ℚ) < 2), zpow_add₀ two_ne_zero]
    have hm53 : (m : ℚ) < 2 ^ (53 : Int) := by exact_mod_cast h.mantissa_lt
    exact hle.trans_lt (mul_lt_mul_of_pos_right hm53 (by positivity))
  have habove (hm52 : 2 ^ 52 ≤ m) : 52 + e < binade num den + 1 := by
    rw [← zpow_lt_zpow_iff_right₀ (one_lt_two : (1 : ℚ) < 2), zpow_add₀ two_ne_zero]
    have hm52' : (2 : ℚ) ^ (52 : Int) ≤ m := by exact_mod_cast hm52
    exact (mul_le_mul_of_nonneg_right hm52' (by positivity)).trans_lt hlt
  -- a normal mantissa has its leading bit 52 places up; any other has the least place anyway
  have hplace : max (-1074) (binade num den - 52) = e := by
    have := h.le_exponent
    rcases h.normal with hnormal | hmin
    · have := habove hnormal
      omega
    · omega
  rw [ofRatio, if_neg (Nat.ne_of_gt hnum)]
  dsimp only
  rw [hplace, Nat.shiftLeft_eq, Nat.shiftLeft_eq, hratio, nearestDiv_mul]
  positivity

end ComplexCalc.Double
