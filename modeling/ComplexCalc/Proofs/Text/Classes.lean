import ComplexCalc.Text.Blank
import ComplexCalc.Text.Numeric
import ComplexCalc.Token.Basic
import Mathlib.Tactic.ByContra

/-! The characters that may begin a lexeme fall into three classes, of which no two share a
character, and none of which has a blank. -/

namespace ComplexCalc.Text
variable {c : Char}

theorem inRanges_eq_true_iff {ranges : List (Nat × Nat)} :
    inRanges ranges c = true ↔ ∃ r ∈ ranges, r.1 ≤ c.toNat ∧ c.toNat ≤ r.2 := by
  simp [inRanges]

theorem isDigit_eq_true_iff : c.isDigit = true ↔ 48 ≤ c.toNat ∧ c.toNat ≤ 57 := by
  simp [Char.isDigit, UInt32.le_iff_toNat_le]

theorem isAlpha_eq_true_iff : c.isAlpha = true ↔
    65 ≤ c.toNat ∧ c.toNat ≤ 90 ∨ 97 ≤ c.toNat ∧ c.toNat ≤ 122 := by
  change (decide (65 ≤ c.val ∧ c.val ≤ 90) ||
    decide (97 ≤ c.val) && decide (c.val ≤ 122)) = true ↔ _
  simp [UInt32.le_iff_toNat_le]

theorem letterRanges_above_ascii : ∀ r ∈ letterRanges, 128 ≤ r.1 := by decide +kernel

theorem letterRanges_apart_blankRanges :
    ∀ r ∈ letterRanges, ∀ s ∈ blankRanges, r.2 < s.1 ∨ s.2 < r.1 := by decide +kernel

theorem numericRanges_apart_blankRanges :
    ∀ r ∈ numericRanges, ∀ s ∈ blankRanges, r.2 < s.1 ∨ s.2 < r.1 := by decide +kernel

theorem blankRanges_apart_ascii_words :
    ∀ s ∈ blankRanges, s.2 ≤ 32 ∨ 128 ≤ s.1 := by decide

theorem isLetter_cases (h : isLetter c = true) :
    c.isAlpha = true ∨ ∃ r ∈ letterRanges, r.1 ≤ c.toNat ∧ c.toNat ≤ r.2 := by
  rw [isLetter, Bool.or_eq_true, inRanges_eq_true_iff] at h
  exact h

theorem isLetter_eq_false_of_isDigit (h : c.isDigit = true) : isLetter c = false := by
  rw [isDigit_eq_true_iff] at h
  by_contra hl
  rcases isLetter_cases (Bool.not_eq_false _ ▸ hl) with ha | ⟨r, hr, hle, -⟩
  · rw [isAlpha_eq_true_iff] at ha
    omega
  · have := letterRanges_above_ascii r hr
    omega

theorem isDigit_eq_false_of_isLetter (h : isLetter c = true) : c.isDigit = false := by
  by_contra hd
  rw [isLetter_eq_false_of_isDigit (Bool.not_eq_false _ ▸ hd)] at h
  cases h

theorem isBlank_eq_false_of_isDigit (h : c.isDigit = true) : isBlank c = false := by
  rw [isDigit_eq_true_iff] at h
  by_contra hb
  obtain ⟨s, hs, hle, hge⟩ := inRanges_eq_true_iff.1 (Bool.not_eq_false _ ▸ hb)
  have := blankRanges_apart_ascii_words s hs
  omega

theorem isBlank_eq_false_of_isLetter (h : isLetter c = true) : isBlank c = false := by
  by_contra hb
  obtain ⟨s, hs, hle, hge⟩ := inRanges_eq_true_iff.1 (Bool.not_eq_false _ ▸ hb)
  rcases isLetter_cases h with ha | ⟨r, hr, hle', hge'⟩
  · rw [isAlpha_eq_true_iff] at ha
    have := blankRanges_apart_ascii_words s hs
    omega
  · have := letterRanges_apart_blankRanges r hr s hs
    omega

theorem isBlank_eq_false_of_isNumeric (h : isNumeric c = true) : isBlank c = false := by
  rcases (Bool.or_eq_true _ _).mp h with hdigit | hnumeric
  · exact isBlank_eq_false_of_isDigit hdigit
  · obtain ⟨r, hr, hle, hge⟩ := inRanges_eq_true_iff.1 hnumeric
    by_contra hb
    obtain ⟨s, hs, hle', hge'⟩ := inRanges_eq_true_iff.1 (Bool.not_eq_false _ ▸ hb)
    have := numericRanges_apart_blankRanges r hr s hs
    omega

theorem isBlank_eq_false_of_isWordChar (h : isWordChar c = true) : isBlank c = false := by
  rcases (Bool.or_eq_true _ _).mp h with hletter | hnumeric
  · exact isBlank_eq_false_of_isLetter hletter
  · exact isBlank_eq_false_of_isNumeric hnumeric

end ComplexCalc.Text

namespace ComplexCalc.Token
variable {c : Char}

def symbols : List Char := [',', '=', '(', ')', '*', '/', '+', '-', '^']

theorem ofSymbol?_isSome_iff : (ofSymbol? c).isSome = true ↔ c ∈ symbols := by
  constructor
  · intro h
    unfold ofSymbol? at h
    split at h <;> simp_all [symbols]
  · intro h
    have hall : (symbols.all fun c => (ofSymbol? c).isSome) = true := by decide
    exact List.all_eq_true.1 hall c h

theorem mem_symbols_of_ofSymbol? {t : Token} (h : ofSymbol? c = some t) : c ∈ symbols :=
  ofSymbol?_isSome_iff.1 (Option.isSome_of_eq_some h)

theorem ofSymbol?_eq_none_iff : ofSymbol? c = none ↔ c ∉ symbols := by
  rw [← ofSymbol?_isSome_iff, Bool.not_eq_true, Option.isSome_eq_false_iff,
    Option.isNone_iff_eq_none]

theorem symbols_apart (h : c ∈ symbols) :
    c.isDigit = false ∧ Text.isLetter c = false ∧ Text.isBlank c = false := by
  have hall :
      (symbols.all fun c => !c.isDigit && (!Text.isLetter c && !Text.isBlank c)) = true := by
    decide +kernel
  simpa using List.all_eq_true.1 hall c h

end ComplexCalc.Token
