import ComplexCalc.Proofs.Decimal.Positional
import ComplexCalc.Proofs.Double.Nearest
import Mathlib.Tactic.Ring

/-! The text of a double reads back to it: a short literal is only taken if it does, and all digits
of the double denote it exactly. -/

namespace ComplexCalc.Decimal
open Double

variable {x : Float} {m : Nat} {e : Int}

theorem positional_plain (d : Nat) (scale : Int) : (positional d scale).Plain := by
  obtain ⟨whole, places, k, heq, hne, hwhole, hplaces, -⟩ := positional_eq d scale
  rw [heq]
  exact fixed_plain hne hwhole hplaces

theorem tenPow_eq (k : Nat) : tenPow k = 10 ^ k := rfl

theorem nearest_eq_ofRatio {n size places : Nat} (hn : n ≠ 0) (hsize : places < size) :
    nearest n size (-places) = ofRatio n (10 ^ places) := by
  have hnat : (-(-(places : Int))).toNat = places := by omega
  have hzero : (-(places : Int)).toNat = 0 := by omega
  rw [nearest, if_neg (by omega), if_neg (by omega), hnat, hzero, tenPow_eq, tenPow_eq,
    Nat.pow_zero, Nat.mul_one]

theorem value_positional {d k : Nat} (h : Canonical m e)
    (hd : d * 2 ^ (-e).toNat = m * (10 ^ k * 2 ^ e.toNat)) :
    (positional d (-k)).value = ofParts m e := by
  obtain ⟨whole, places, t, heq, hne, -, -, hlength, hdigits⟩ := positional_eq d (-k)
  have hk : (-(-(k : Int))).toNat = k := by omega
  have hzero : (-(k : Int)).toNat = 0 := by omega
  rw [hk] at hlength
  rw [hzero, Nat.pow_zero, Nat.mul_one] at hdigits
  rw [heq, fixed_value]
  have hsize : places.length < (whole ++ places).length := by
    have := List.length_pos_iff.2 hne
    rw [List.length_append]
    omega
  generalize natOfDigits (whole ++ places) = n at hdigits ⊢
  have hratio : n * 2 ^ (-e).toNat = m * (10 ^ places.length * 2 ^ e.toNat) := by
    -- the zeros that were left out of the fraction cancel
    apply Nat.eq_of_mul_eq_mul_right (Nat.pow_pos (by decide) : 0 < 10 ^ t)
    calc n * 2 ^ (-e).toNat * 10 ^ t = n * 10 ^ t * 2 ^ (-e).toNat := by ring
      _ = m * (10 ^ k * 2 ^ e.toNat) := by rw [hdigits, hd]
      _ = m * (10 ^ places.length * 2 ^ e.toNat) * 10 ^ t := by
        rw [← hlength, Nat.pow_add]
        ring
  have hn : n = 0 ↔ m = 0 := by
    constructor
    · rintro rfl
      simpa using hratio.symm
    · rintro rfl
      simpa using hratio
  by_cases hm : m = 0
  · have he : e = -1074 := by
      rcases h.normal with hnormal | hmin
      · omega
      · exact hmin
    rw [nearest, if_pos (.inl (hn.2 hm)), zero, hm, he]
  · rw [nearest_eq_ofRatio (mt hn.1 hm) hsize]
    exact ofRatio_eq_ofParts h (Nat.pos_of_ne_zero hm) (Nat.pow_pos (by decide)) hratio

theorem value_expansion (h : Canonical m e) : (expansion m e).value = ofParts m e := by
  rw [expansion]
  split
  · rename_i he
    have hzero : (-e).toNat = 0 := by omega
    have hvalue : (positional (m <<< e.toNat) (-(0 : Nat))).value = ofParts m e := by
      apply value_positional h
      rw [hzero, Nat.shiftLeft_eq, Nat.pow_zero, Nat.pow_zero, Nat.mul_one, Nat.one_mul]
    exact hvalue
  · rename_i he
    have hscale : e = -(e.natAbs : Int) := by omega
    have hplaces : (-e).toNat = e.natAbs := by omega
    have hzero : e.toNat = 0 := by omega
    have hdvd : 2 ^ e.natAbs ∣ 10 ^ e.natAbs := pow_dvd_pow_of_dvd (by decide) _
    have hvalue : (positional (m * tenPow e.natAbs >>> e.natAbs) (-e.natAbs)).value =
        ofParts m e := by
      apply value_positional h
      rw [hplaces, hzero, Nat.shiftRight_eq_div_pow, tenPow_eq, Nat.mul_assoc,
        Nat.div_mul_cancel hdvd, Nat.pow_zero, Nat.mul_one]
    rwa [← hscale] at hvalue

theorem expansion_plain (m : Nat) (e : Int) : (expansion m e).Plain := by
  rw [expansion]
  split <;> exact positional_plain _ _

/-- The digits of a double are in positional notation and read back to it. -/
theorem shortest_reads_back (h : storedExponent x ≠ 2047) (hx : isNegative x = false) :
    (shortest x).Plain ∧ (shortest x).value = x := by
  rw [shortest]
  generalize hfound : List.findSome? _ (List.range 17) = found
  cases found with
  | none =>
    refine ⟨expansion_plain _ _, ?_⟩
    exact (value_expansion (canonical h)).trans (ofParts_mantissa_exponent h hx)
  | some l =>
    -- a shorter literal was only taken because it reads back
    obtain ⟨n, -, hn⟩ := List.exists_of_findSome?_eq_some hfound
    have hvalue := List.find?_some hn
    have hmem := List.mem_of_find?_eq_some hn
    refine ⟨?_, of_decide_eq_true hvalue⟩
    rw [neighbours] at hmem
    split at hmem <;> simp only [List.mem_cons, List.not_mem_nil, or_false] at hmem <;>
      rcases hmem with rfl | rfl <;> exact positional_plain _ _

end ComplexCalc.Decimal
