import ComplexCalc.Decimal.Shortest
import ComplexCalc.Proofs.Lexical.Numeral
import Mathlib.Algebra.Group.Nat.Defs

/-! Positional notation: digits and perhaps a fraction, which denote the number that was written.
-/

namespace ComplexCalc.Decimal
variable {ds : List Char}

structure Literal.Plain (l : Literal) : Prop where
  wellFormed : l.WellFormed
  fraction : l.fraction ≠ some []
  exponent : l.exponent = none

theorem natOfDigits_eq (ds : List Char) : natOfDigits ds = Nat.ofDigitChars 10 ds 0 :=
  Nat.ofDigitChars_eq_foldl.symm

theorem natOfDigits_append (ds es : List Char) :
    natOfDigits (ds ++ es) = 10 ^ es.length * natOfDigits ds + natOfDigits es := by
  simp only [natOfDigits_eq]
  rw [Nat.ofDigitChars_append, Nat.ofDigitChars_eq_ofDigitChars_zero]

theorem natOfDigits_replicate (k : Nat) : natOfDigits (List.replicate k '0') = 0 := by
  rw [natOfDigits_eq, Nat.ofDigitChars_replicate_zero, Nat.mul_zero]

theorem natOfDigits_leftpad (k : Nat) (ds : List Char) :
    natOfDigits (ds.leftpad k '0') = natOfDigits ds := by
  rw [List.leftpad, natOfDigits_append, natOfDigits_replicate, Nat.mul_zero, Nat.zero_add]

theorem natOfDigits_toDigits (n : Nat) : natOfDigits (Nat.toDigits 10 n) = n := by
  rw [natOfDigits_eq, Nat.ofDigitChars_ten_toDigits]

theorem isDigit_toDigits (n : Nat) : ∀ c ∈ Nat.toDigits 10 n, c.isDigit = true := by
  intro c hc
  exact Nat.isDigit_of_mem_toDigits (by decide) (by decide) hc

theorem isDigit_append_zeros (h : ∀ c ∈ ds, c.isDigit = true) (k : Nat) :
    ∀ c ∈ ds ++ List.replicate k '0', c.isDigit = true := by
  intro c hc
  rcases List.mem_append.1 hc with hc | hc
  · exact h c hc
  · rw [List.eq_of_mem_replicate hc]
    rfl

theorem isDigit_leftpad (h : ∀ c ∈ ds, c.isDigit = true) (k : Nat) :
    ∀ c ∈ ds.leftpad k '0', c.isDigit = true := by
  intro c hc
  rcases List.mem_append.1 hc with hc | hc
  · rw [List.eq_of_mem_replicate hc]
    rfl
  · exact h c hc

theorem trim_append (ds : List Char) :
    ∃ k, (ds.reverse.dropWhile (· = '0')).reverse ++ List.replicate k '0' = ds := by
  have hzeros : ∀ c ∈ (ds.reverse.takeWhile (· = '0')).reverse, c = '0' := by
    intro c hc
    have hzero := List.mem_takeWhile_imp (List.mem_reverse.1 hc)
    exact of_decide_eq_true hzero
  refine ⟨(ds.reverse.takeWhile (· = '0')).reverse.length, ?_⟩
  rw [← List.eq_replicate_of_mem hzeros, ← List.reverse_append, List.takeWhile_append_dropWhile,
    List.reverse_reverse]

def fixed (whole places : List Char) : Literal :=
  ⟨whole, if places = [] then none else some places, none⟩

theorem fixed_plain {whole places : List Char} (hne : whole ≠ [])
    (hwhole : ∀ c ∈ whole, c.isDigit = true) (hplaces : ∀ c ∈ places, c.isDigit = true) :
    (fixed whole places).Plain := by
  refine ⟨⟨hne, hwhole, ?_, nofun⟩, ?_, rfl⟩
  · intro ds hds
    rw [fixed] at hds
    split at hds
    · cases hds
    · cases hds
      exact hplaces
  · rw [fixed]
    split
    · exact nofun
    · rename_i hne
      exact fun h => hne (Option.some.inj h)

theorem fixed_value (whole places : List Char) : (fixed whole places).value =
    nearest (natOfDigits (whole ++ places)) (whole ++ places).length (-places.length) := by
  have hplaces : (fixed whole places).fraction.getD [] = places := by
    rw [fixed]
    split
    · rename_i h
      exact h.symm
    · rfl
  rw [Literal.value, hplaces]
  show nearest _ _ (0 - _) = _
  rw [Int.zero_sub]
  rfl

theorem positional_eq (d : Nat) (scale : Int) : ∃ whole places k,
    positional d scale = fixed whole places ∧ whole ≠ [] ∧
    (∀ c ∈ whole, c.isDigit = true) ∧ (∀ c ∈ places, c.isDigit = true) ∧
    places.length + k = (-scale).toNat ∧
    natOfDigits (whole ++ places) * 10 ^ k = d * 10 ^ scale.toNat := by
  rw [positional]
  dsimp only
  split
  · rename_i hscale
    refine ⟨_, [], 0, rfl, ?_, ?_, nofun, ?_, ?_⟩
    · exact List.append_ne_nil_of_left_ne_nil Nat.toDigits_ne_nil _
    · exact isDigit_append_zeros (isDigit_toDigits d) _
    · show 0 + 0 = _
      omega
    · rw [List.append_nil, natOfDigits_append, natOfDigits_replicate, natOfDigits_toDigits,
        List.length_replicate, Nat.mul_comm d]
      omega
  · rename_i hscale
    have hdigits := isDigit_leftpad (isDigit_toDigits d) (scale.natAbs + 1)
    have hvalue := natOfDigits_leftpad (scale.natAbs + 1) (Nat.toDigits 10 d)
    -- the padding leaves at least one digit for the whole part
    have hlength : scale.natAbs + 1 ≤
        ((Nat.toDigits 10 d).leftpad (scale.natAbs + 1) '0').length := by
      rw [List.length_leftpad]
      exact Nat.le_max_left _ _
    generalize (Nat.toDigits 10 d).leftpad (scale.natAbs + 1) '0' = ds at hdigits hvalue hlength ⊢
    obtain ⟨k, hk⟩ := trim_append (ds.drop (ds.length - scale.natAbs))
    generalize ((ds.drop (ds.length - scale.natAbs)).reverse.dropWhile (· = '0')).reverse = places
      at hk ⊢
    have hplaces : ∀ c ∈ places, c.isDigit = true := by
      intro c hc
      apply hdigits
      apply List.mem_of_mem_drop (i := ds.length - scale.natAbs)
      rw [← hk]
      exact List.mem_append_left _ hc
    refine ⟨ds.take (ds.length - scale.natAbs), places, k, ?_, ?_, ?_, hplaces, ?_, ?_⟩
    · cases places <;> rfl
    · rw [← List.length_pos_iff, List.length_take]
      omega
    · exact fun c hc => hdigits c (List.mem_of_mem_take hc)
    · have hsum := congrArg List.length hk
      rw [List.length_append, List.length_replicate, List.length_drop] at hsum
      omega
    · have hall : natOfDigits ((ds.take (ds.length - scale.natAbs) ++ places) ++
          List.replicate k '0') = d := by
        rw [List.append_assoc, hk, List.take_append_drop, hvalue, natOfDigits_toDigits]
      rw [natOfDigits_append, natOfDigits_replicate, List.length_replicate, Nat.add_zero] at hall
      have hzero : scale.toNat = 0 := by omega
      rw [hzero, Nat.pow_zero, Nat.mul_one, Nat.mul_comm, hall]

end ComplexCalc.Decimal
