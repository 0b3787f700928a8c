import ComplexCalc.Proofs.Lexical.Longest
import Mathlib.Computability.RegularExpressions
import Mathlib.Tactic.FinCases
import Mathlib.Tactic.IntervalCases

/-! The numerals as a regular language, `D+ ( . D* )? ( (e|E) (+|-)? D+ )?`. The words of the
language are the texts of the literals, so the scanner reads the longest of them, and a conversion
of numerals that accepts the whole language never fails on what was read. -/

namespace ComplexCalc.Decimal
open RegularExpression

namespace Pattern
variable {w : List Char} {cs : List Char} {P : RegularExpression Char}

def oneOf (cs : List Char) : RegularExpression Char := (cs.map char).sum

def digit : RegularExpression Char := oneOf ['0', '1', '2', '3', '4', '5', '6', '7', '8', '9']

def digits : RegularExpression Char := digit * star digit

def mantissa : RegularExpression Char := digits * (1 + char '.' * star digit)

def sign : RegularExpression Char := oneOf ['+', '-']

def scale : RegularExpression Char := oneOf ['e', 'E'] * ((1 + sign) * digits)

def numeral : RegularExpression Char := mantissa * (1 + scale)

theorem mem_oneOf : w ∈ (oneOf cs).matches' ↔ ∃ c ∈ cs, w = [c] := by
  induction cs with
  | nil => simp [oneOf, Language.notMem_zero]
  | cons c cs ih =>
    have hsum : oneOf (c :: cs) = char c + oneOf cs := List.sum_cons
    rw [hsum, matches'_add, Language.mem_add, ih, matches'_char]
    simp only [List.mem_cons, exists_eq_or_imp]
    exact Iff.rfl

theorem mem_star_oneOf : w ∈ (star (oneOf cs)).matches' ↔ ∀ c ∈ w, c ∈ cs := by
  rw [matches'_star, Language.mem_kstar]
  constructor
  · rintro ⟨ws, rfl, hws⟩ c hc
    obtain ⟨v, hv, hcv⟩ := List.mem_flatten.1 hc
    obtain ⟨x, hx, rfl⟩ := mem_oneOf.1 (hws v hv)
    exact List.mem_singleton.1 hcv ▸ hx
  · intro hw
    refine ⟨w.map fun c => [c], ?_, fun v hv => ?_⟩
    · rw [← List.flatMap_def, List.flatMap_singleton']
    · obtain ⟨c, hc, rfl⟩ := List.mem_map.1 hv
      exact mem_oneOf.2 ⟨c, hw c hc, rfl⟩

theorem mem_mul {P Q : RegularExpression Char} :
    w ∈ (P * Q).matches' ↔ ∃ u ∈ P.matches', ∃ v ∈ Q.matches', u ++ v = w := by
  rw [matches'_mul, Language.mem_mul]

theorem mem_optional : w ∈ (1 + P).matches' ↔ w = [] ∨ w ∈ P.matches' := by
  rw [matches'_add, Language.mem_add, matches'_epsilon, Language.mem_one]

theorem mem_ten_digits_iff {c : Char} :
    c ∈ ['0', '1', '2', '3', '4', '5', '6', '7', '8', '9'] ↔ c.isDigit = true := by
  constructor
  · intro hc
    fin_cases hc <;> rfl
  · rw [Text.isDigit_eq_true_iff]
    rintro ⟨hle, hge⟩
    rw [← Char.ofNat_toNat c]
    interval_cases c.toNat <;> decide

theorem mem_digit : w ∈ digit.matches' ↔ ∃ c : Char, c.isDigit = true ∧ w = [c] := by
  simp only [digit, mem_oneOf, mem_ten_digits_iff]

theorem mem_star_digit : w ∈ (star digit).matches' ↔ ∀ c ∈ w, c.isDigit = true := by
  simp only [digit, mem_star_oneOf, mem_ten_digits_iff]

theorem mem_digits : w ∈ digits.matches' ↔ w ≠ [] ∧ ∀ c ∈ w, c.isDigit = true := by
  rw [digits, mem_mul]
  constructor
  · rintro ⟨u, hu, v, hv, rfl⟩
    obtain ⟨c, hc, rfl⟩ := mem_digit.1 hu
    exact ⟨by simp, List.forall_mem_cons.2 ⟨hc, mem_star_digit.1 hv⟩⟩
  · rintro ⟨hne, hw⟩
    obtain ⟨c, v, rfl⟩ := List.exists_cons_of_ne_nil hne
    obtain ⟨hc, hv⟩ := List.forall_mem_cons.1 hw
    exact ⟨[c], mem_digit.2 ⟨c, hc, rfl⟩, v, mem_star_digit.2 hv, rfl⟩

theorem mem_fraction : w ∈ (1 + char '.' * star digit).matches' ↔ ∃ places : Option (List Char),
    (∀ ds ∈ places, ∀ c ∈ ds, c.isDigit = true) ∧ places.elim [] ('.' :: ·) = w := by
  rw [mem_optional, mem_mul, matches'_char, Option.exists]
  constructor
  · rintro (rfl | ⟨u, rfl, v, hv, rfl⟩)
    · exact .inl ⟨by simp, rfl⟩
    · exact .inr ⟨v, by simpa using mem_star_digit.1 hv, rfl⟩
  · rintro (⟨-, rfl⟩ | ⟨ds, hds, rfl⟩)
    · exact .inl rfl
    · exact .inr ⟨['.'], rfl, ds, mem_star_digit.2 (hds ds rfl), rfl⟩

theorem mem_sign : w ∈ (1 + sign).matches' ↔ ∃ s : Option Char,
    (∀ c ∈ s, c = '+' ∨ c = '-') ∧ s.toList = w := by
  rw [mem_optional, sign, mem_oneOf, Option.exists]
  simp [eq_comm]

theorem mem_scale : w ∈ scale.matches' ↔ ∃ e : Exponent, e.WellFormed ∧ e.chars = w := by
  simp only [scale, mem_mul, mem_sign, mem_digits, mem_oneOf, List.mem_cons, List.not_mem_nil,
    or_false]
  constructor
  · rintro ⟨_, ⟨mark, hmark, rfl⟩, _, ⟨_, ⟨s, hs, rfl⟩, ds, ⟨hne, hds⟩, rfl⟩, rfl⟩
    exact ⟨⟨mark, s, ds⟩, ⟨hmark, hs, hne, hds⟩, rfl⟩
  · rintro ⟨⟨mark, s, ds⟩, ⟨hmark, hs, hne, hds⟩, rfl⟩
    exact ⟨_, ⟨mark, hmark, rfl⟩, _, ⟨_, ⟨s, hs, rfl⟩, ds, ⟨hne, hds⟩, rfl⟩, rfl⟩

theorem mem_mantissa : w ∈ mantissa.matches' ↔
    ∃ l : Literal, l.WellFormed ∧ l.exponent = none ∧ l.chars = w := by
  simp only [mantissa, mem_mul, mem_digits, mem_fraction]
  constructor
  · rintro ⟨whole, ⟨hne, hwhole⟩, _, ⟨places, hplaces, rfl⟩, rfl⟩
    refine ⟨⟨whole, places, none⟩, ⟨hne, hwhole, hplaces, by simp⟩, rfl, ?_⟩
    simp [Literal.chars]
  · rintro ⟨⟨whole, places, _⟩, ⟨hne, hwhole, hplaces, -⟩, rfl, rfl⟩
    exact ⟨whole, ⟨hne, hwhole⟩, _, ⟨places, hplaces, rfl⟩, by simp [Literal.chars]⟩

theorem mem_numeral : w ∈ numeral.matches' ↔ ∃ l : Literal, l.WellFormed ∧ l.chars = w := by
  simp only [numeral, mem_mul, mem_optional, mem_mantissa, mem_scale]
  constructor
  · rintro ⟨_, ⟨⟨whole, places, _⟩, hl, rfl, rfl⟩, _, rfl | ⟨e, he, rfl⟩, rfl⟩
    · exact ⟨⟨whole, places, none⟩, hl, by simp⟩
    · refine ⟨⟨whole, places, some e⟩, ⟨hl.ne_nil, hl.whole, hl.fraction, ?_⟩, ?_⟩
      · simpa using he
      · simp [Literal.chars]
  · rintro ⟨⟨whole, places, exponent⟩, hl, rfl⟩
    have hmantissa : Literal.WellFormed ⟨whole, places, none⟩ :=
      ⟨hl.ne_nil, hl.whole, hl.fraction, by simp⟩
    refine ⟨_, ⟨⟨whole, places, none⟩, hmantissa, rfl, rfl⟩,
      exponent.elim [] Exponent.chars, ?_, by simp [Literal.chars]⟩
    cases exponent with
    | none => exact .inl rfl
    | some e => exact .inr ⟨e, hl.exponent e rfl, rfl⟩

example : "3.e5".toList ∈ numeral.matches' ∧ ".5".toList ∉ numeral.matches' := by decide +kernel

/-- The text begins with the word, no longer word of the language is a prefix of it, and `rest` is
what comes after the word. -/
structure LongestMatch (P : RegularExpression Char) (w rest cs : List Char) : Prop where
  append : w ++ rest = cs
  mem : w ∈ P.matches'
  longest : ∀ v ∈ P.matches', v <+: cs → v.length ≤ w.length

end Pattern

namespace Literal
open Pattern
variable {cs w rest tail : List Char} {l : Literal} {mark : Char}

theorem longestMatch_of_scan? (h : Literal.scan? cs = some (l, rest)) :
    LongestMatch numeral l.chars rest cs where
  append := append_of_scan? h
  mem := mem_numeral.2 ⟨l, wellFormed_of_scan? h, rfl⟩
  longest := by
    rintro v hv ⟨r, rfl⟩
    obtain ⟨l', hl', rfl⟩ := mem_numeral.1 hv
    exact length_le_of_scan? hl' h

theorem scan?_iff_longestMatch : (∃ l, Literal.scan? cs = some (l, rest) ∧ l.chars = w) ↔
    LongestMatch numeral w rest cs := by
  constructor
  · rintro ⟨l, h, rfl⟩
    exact longestMatch_of_scan? h
  · rintro ⟨rfl, hw, hlongest⟩
    obtain ⟨l', hl', rfl⟩ := mem_numeral.1 hw
    obtain ⟨d, ds, hwhole⟩ := List.exists_cons_of_ne_nil hl'.ne_nil
    have hdigit : ∃ c ∈ (l'.chars ++ rest).head?, c.isDigit = true :=
      ⟨d, by simp [Literal.chars, hwhole], hl'.whole d (hwhole ▸ List.mem_cons_self)⟩
    obtain ⟨⟨l, r⟩, h⟩ := Option.isSome_iff_exists.1 (scan?_isSome_iff.2 hdigit)
    -- both are numerals at the start of one text, and neither is longer than the other
    have hmatch := longestMatch_of_scan? h
    have hlen : l.chars.length = l'.chars.length :=
      Nat.le_antisymm (hlongest _ hmatch.mem ⟨r, hmatch.append⟩) (length_le_of_scan? hl' h)
    obtain ⟨hchars, rfl⟩ := List.append_inj hmatch.append hlen
    exact ⟨l, h, hchars⟩

theorem scan?_exponent_of_no_digits (h : ∀ v ∈ ((1 + sign) * digit).matches', ¬ v <+: tail) :
    Exponent.scan? (mark :: tail) = none := by
  cases hscan : Exponent.scan? (mark :: tail) with
  | none => rfl
  | some p =>
    obtain ⟨e, r⟩ := p
    have he := Exponent.wellFormed_of_scan? hscan
    obtain ⟨d, ds, hdigits⟩ := List.exists_cons_of_ne_nil he.ne_nil
    have happend : e.sign.toList ++ e.digits ++ r = tail :=
      (List.cons.inj (Exponent.append_of_scan? hscan)).2
    have hword : e.sign.toList ++ [d] ∈ ((1 + sign) * digit).matches' :=
      mem_mul.2 ⟨_, mem_sign.2 ⟨e.sign, he.sign, rfl⟩, _,
        mem_digit.2 ⟨d, he.digits d (hdigits ▸ List.mem_cons_self), rfl⟩, rfl⟩
    exact absurd ⟨ds ++ r, by simp [← happend, hdigits]⟩ (h _ hword)

theorem scan?_mantissa (hw : w ∈ mantissa.matches') (hmark : mark = 'e' ∨ mark = 'E')
    (htail : ∀ v ∈ ((1 + sign) * digit).matches', ¬ v <+: tail) :
    ∃ l, Literal.scan? (w ++ mark :: tail) = some (l, mark :: tail) ∧ l.chars = w := by
  obtain ⟨l, hl, -, rfl⟩ := mem_mantissa.1 hw
  have hends : l.Ends (mark :: tail) := by
    refine ⟨?_, fun _ => scan?_exponent_of_no_digits htail, fun _ _ => ?_⟩ <;>
      rcases hmark with rfl | rfl <;> simp
  exact ⟨l, scan?_append hl hends, rfl⟩

example : Literal.scan? "1.5e+x".toList = some (⟨['1'], some ['5'], none⟩, "e+x".toList) := by
  decide

end Literal

end ComplexCalc.Decimal

namespace ComplexCalc.Lexeme
open Decimal Pattern
variable {cs : List Char}

/-- The token at the start of a text by way of a conversion of numerals that may fail: where it
does, the text is read as if no number stood there. -/
def scanWith? (convert : List Char → Option Float) (cs : List Char) : Option (Token × List Char) :=
  match (Literal.scan? cs).bind fun p => (convert p.1.chars).map fun x => (Token.real x, p.2) with
  | some p => some p
  | none => ((scanWord? cs).or (scanSymbol? cs)).map fun p => (p.1.token, p.2)

theorem map_scanWith? {convert : List Char → Option Float}
    (h : ∀ w ∈ numeral.matches', (convert w).isSome = true) :
    (scanWith? convert cs).map Prod.snd = (scan? cs).map Prod.snd := by
  rw [scanWith?, scan?]
  cases hscan : Literal.scan? cs with
  | none => simp [Function.comp_def]
  | some p =>
    have hmatch := Literal.longestMatch_of_scan? hscan
    obtain ⟨x, hx⟩ := Option.isSome_iff_exists.1 (h _ hmatch.mem)
    simp [hx]

/-- The scanner of numbers succeeds on the texts that begin with a digit, and reads the longest
numeral there; an `e` or `E` that no power of ten follows is left. A conversion that accepts all
numerals never fails on what was read, so it makes no text unreadable. A text has no token at its
start only if it is empty or begins with no digit, letter or symbol; and what is read as a token is
not empty. -/
theorem scan?_longest_numeral (cs : List Char) :
    ((Literal.scan? cs).isSome = true ↔ ∃ c ∈ cs.head?, c.isDigit = true) ∧
    (∀ w rest, (∃ l, Literal.scan? cs = some (l, rest) ∧ l.chars = w) ↔
      LongestMatch numeral w rest cs) ∧
    (∀ w ∈ mantissa.matches', ∀ mark tail, cs = w ++ mark :: tail → mark = 'e' ∨ mark = 'E' →
      (∀ v ∈ ((1 + sign) * digit).matches', ¬ v <+: tail) →
      ∃ l, Literal.scan? cs = some (l, mark :: tail) ∧ l.chars = w) ∧
    (∀ convert : List Char → Option Float, (∀ w ∈ numeral.matches', (convert w).isSome = true) →
      (∀ l rest, Literal.scan? cs = some (l, rest) → (convert l.chars).isSome = true) ∧
      (scanWith? convert cs).map Prod.snd = (scan? cs).map Prod.snd) ∧
    (scan? cs = none ↔ cs = [] ∨ ∃ c ∈ cs.head?,
      c.isDigit = false ∧ Text.isLetter c = false ∧ c ∉ Token.symbols) ∧
    (∀ l rest, scan? cs = some (l, rest) → l.chars ≠ [] ∧ l.chars ++ rest = cs) := by
  refine ⟨Literal.scan?_isSome_iff, fun w rest => Literal.scan?_iff_longestMatch, ?_, ?_, ?_,
    fun l rest => append_of_scan?⟩
  · rintro w hw mark tail rfl hmark htail
    exact Literal.scan?_mantissa hw hmark htail
  · intro convert hconvert
    exact ⟨fun l rest h => hconvert _ (Literal.longestMatch_of_scan? h).mem,
      map_scanWith? hconvert⟩
  · cases cs with
    | nil => exact iff_of_true rfl (.inl rfl)
    | cons c cs => simp [scan?_eq_none_iff, Begins]

def convertNumeral (w : List Char) : Option Float :=
  (Literal.scan? w).bind fun p => if p.2 = [] then some p.1.value else none

theorem scan?_longest_numeral_before_sign :
    (∀ w ∈ numeral.matches', (convertNumeral w).isSome = true) ∧
    (∃ l, Literal.scan? "2e+x".toList = some (l, "e+x".toList) ∧ l.chars = ['2'] ∧
      (convertNumeral l.chars).isSome = true) ∧
    LongestMatch numeral ['2'] "e+x".toList "2e+x".toList ∧
    (scanWith? convertNumeral "2e+x".toList).map Prod.snd = some "e+x".toList := by
  have hconvert : ∀ w ∈ numeral.matches', (convertNumeral w).isSome = true := by
    intro w hw
    obtain ⟨l, hl, rfl⟩ := mem_numeral.1 hw
    have hscan := Literal.scan?_append hl l.ends_nil
    rw [List.append_nil] at hscan
    simp [convertNumeral, hscan]
  have hdigits : ∀ v ∈ ((1 + sign) * digit).matches', ¬ v <+: ['+', 'x'] := by
    intro v hv hprefix
    obtain ⟨_, hu, _, hw, rfl⟩ := mem_mul.1 hv
    obtain ⟨s, -, rfl⟩ := mem_sign.1 hu
    obtain ⟨d, hd, rfl⟩ := mem_digit.1 hw
    cases s with
    | none =>
      obtain rfl := (List.cons_prefix_cons.1 hprefix).1
      exact absurd hd (by decide)
    | some c =>
      obtain rfl := (List.cons_prefix_cons.1 (List.cons_prefix_cons.1 hprefix).2).1
      exact absurd hd (by decide)
  obtain ⟨-, hlongest, hmark, hwith, -⟩ := scan?_longest_numeral "2e+x".toList
  obtain ⟨hsome, hrest⟩ := hwith convertNumeral hconvert
  obtain ⟨l, hl, hchars⟩ :=
    hmark ['2'] (by decide +kernel) 'e' ['+', 'x'] rfl (.inl rfl) hdigits
  refine ⟨hconvert, ⟨l, hl, hchars, hsome l _ hl⟩, (hlongest _ _).1 ⟨l, hl, hchars⟩, ?_⟩
  rw [hrest, scan?, hl]
  rfl

end ComplexCalc.Lexeme
