import ComplexCalc.Proofs.Lexical.Numeral
import ComplexCalc.Proofs.Text.Classes
import ComplexCalc.Token.Lexeme

/-! The three kinds of lexemes. The first character tells the kind, and the lexeme that is read is
the longest of all that the text starts with. -/

namespace ComplexCalc.Lexeme
variable {c : Char} {cs rest : List Char}

def WellFormed : Lexeme → Prop
  | number l => l.WellFormed
  | word cs => ∃ c rest, cs = c :: rest ∧ Text.isLetter c = true ∧
      ∀ x ∈ rest, Text.isWordChar x = true
  | symbol t => ∃ c, Token.ofSymbol? c = some t

def Begins (c : Char) : Prop := c.isDigit = true ∨ Text.isLetter c = true ∨ c ∈ Token.symbols

theorem Begins.not_blank (h : Begins c) : Text.isBlank c = false := by
  rcases h with h | h | h
  · exact Text.isBlank_eq_false_of_isDigit h
  · exact Text.isBlank_eq_false_of_isLetter h
  · exact (Token.symbols_apart h).2.2

theorem wellFormed_of_scan? {l : Lexeme} (h : scan? cs = some (l, rest)) : l.WellFormed := by
  unfold scan? at h
  split at h
  · rename_i p hp
    cases h
    exact Decimal.Literal.wellFormed_of_scan? hp
  · cases cs with
    | nil => cases h
    | cons c cs =>
      rcases Option.or_eq_some_iff.1 h with h | ⟨-, h⟩
      · simp only [scanWord?, Option.ite_none_right_eq_some] at h
        obtain ⟨hletter, h⟩ := h
        cases h
        exact ⟨c, _, rfl, hletter, fun x hx => List.mem_takeWhile_imp hx⟩
      · obtain ⟨t, ht, h⟩ := Option.map_eq_some_iff.1 h
        cases h
        exact ⟨c, ht⟩

theorem scan?_cons (c : Char) (cs : List Char) : scan? (c :: cs) =
    if c.isDigit then (Decimal.Literal.scan? (c :: cs)).map fun p => (number p.1, p.2)
    else if Text.isLetter c then
      some (word (c :: cs.takeWhile Text.isWordChar), cs.dropWhile Text.isWordChar)
    else (Token.ofSymbol? c).map fun t => (symbol t, cs) := by
  have hsome : (Decimal.Literal.scan? (c :: cs)).isSome = true ↔ _ :=
    Decimal.Literal.scan?_isSome_iff
  cases hd : c.isDigit with
  | true =>
    obtain ⟨p, hp⟩ := Option.isSome_iff_exists.1 (hsome.2 ⟨c, rfl, hd⟩)
    simp [scan?, hp]
  | false =>
    have hnone : Decimal.Literal.scan? (c :: cs) = none := by
      rw [← Option.isNone_iff_eq_none, ← Option.not_isSome, Bool.not_eq_true']
      by_contra hs
      obtain ⟨x, hx, hdigit⟩ := hsome.1 (Bool.not_eq_false _ ▸ hs)
      cases hx
      simp [hd] at hdigit
    cases hl : Text.isLetter c <;> simp [scan?, hnone, scanWord?, scanSymbol?, hl]

theorem scan?_eq_none_iff : scan? (c :: cs) = none ↔ ¬ Begins c := by
  rw [scan?_cons, Begins]
  have hsome : (Decimal.Literal.scan? (c :: cs)).isSome = true ↔ _ :=
    Decimal.Literal.scan?_isSome_iff
  cases hd : c.isDigit with
  | true =>
    have := hsome.2 ⟨c, rfl, hd⟩
    simp only [if_true, Option.map_eq_none_iff, true_or, not_true, iff_false]
    exact Option.isSome_iff_ne_none.1 this
  | false =>
    cases hl : Text.isLetter c with
    | true => simp
    | false => simp [Token.ofSymbol?_eq_none_iff]

theorem begins_of_wellFormed {l : Lexeme} (hl : l.WellFormed) :
    ∃ c cs, l.chars = c :: cs ∧ Begins c := by
  cases l with
  | number l =>
    obtain ⟨d, w, hw⟩ := List.exists_cons_of_ne_nil hl.ne_nil
    refine ⟨d, w ++ (l.fraction.elim [] ('.' :: ·) ++ l.exponent.elim [] Decimal.Exponent.chars),
      ?_, .inl (hl.whole d (hw ▸ List.mem_cons_self))⟩
    rw [chars, Decimal.Literal.chars, hw, List.cons_append]
  | word cs =>
    obtain ⟨c, rest, rfl, hc, -⟩ := hl
    exact ⟨c, rest, rfl, .inr (.inl hc)⟩
  | symbol t =>
    obtain ⟨c, hc⟩ := hl
    exact ⟨c, [], text_of_ofSymbol? hc, .inr (.inr (Token.mem_symbols_of_ofSymbol? hc))⟩

theorem takeWhile_length_le {p : Char → Bool} {as bs : List Char} (h : ∀ x ∈ as, p x = true) :
    as.length ≤ ((as ++ bs).takeWhile p).length := by
  rw [List.takeWhile_append_of_pos h, List.length_append]
  exact Nat.le_add_right _ _

theorem length_le_of_scan? {l l' : Lexeme} {r : List Char} (hl' : l'.WellFormed)
    (h : scan? (l'.chars ++ r) = some (l, rest)) : l'.chars.length ≤ l.chars.length := by
  -- the first character tells the kind, so the two lexemes are of one kind
  obtain ⟨c, cs, hcs, hc⟩ := begins_of_wellFormed hl'
  cases l' with
  | number n =>
    obtain ⟨d, w, hw⟩ := List.exists_cons_of_ne_nil hl'.ne_nil
    have hd : c.isDigit = true := by
      have hhead : n.chars = c :: cs := hcs
      rw [Decimal.Literal.chars, hw, List.cons_append] at hhead
      obtain ⟨rfl, -⟩ := List.cons.inj hhead
      exact hl'.whole d (hw ▸ List.mem_cons_self)
    rw [hcs, List.cons_append, scan?_cons, if_pos hd, ← List.cons_append, ← hcs] at h
    obtain ⟨p, hp, hpl⟩ := Option.map_eq_some_iff.1 h
    cases hpl
    exact Decimal.Literal.length_le_of_scan? hl' hp
  | word ws =>
    obtain ⟨x, xs, rfl, hx, hxs⟩ := hl'
    rw [chars, List.cons_append, scan?_cons, Text.isDigit_eq_false_of_isLetter hx,
      if_neg Bool.false_ne_true, if_pos hx] at h
    cases h
    exact Nat.succ_le_succ (takeWhile_length_le hxs)
  | symbol t =>
    obtain ⟨x, hx⟩ := hl'
    rw [chars, text_of_ofSymbol? hx]
    exact List.length_pos_iff.2 (append_of_scan? h).1

theorem scan?_chars {l : Lexeme} (hl : l.WellFormed) : scan? l.chars = some (l, []) := by
  cases l with
  | number n =>
    have hn := Decimal.Literal.scan?_append hl n.ends_nil
    rw [List.append_nil] at hn
    rw [chars, scan?, hn]
  | word ws =>
    obtain ⟨x, xs, rfl, hletter, hxs⟩ := hl
    rw [chars, scan?_cons, Text.isDigit_eq_false_of_isLetter hletter, if_neg Bool.false_ne_true,
      if_pos hletter, List.takeWhile_eq_self_iff.2 hxs, List.dropWhile_eq_nil_iff.2 hxs]
  | symbol t =>
    obtain ⟨x, hx⟩ := hl
    obtain ⟨hd, hletter, -⟩ := Token.symbols_apart (Token.mem_symbols_of_ofSymbol? hx)
    rw [chars, text_of_ofSymbol? hx, scan?_cons, hd, hletter, hx]
    rfl

theorem eq_of_chars {l l' : Lexeme} (hl : l.WellFormed) (hl' : l'.WellFormed)
    (h : l.chars = l'.chars) : l = l' := by
  have hscan := scan?_chars hl
  rw [h, scan?_chars hl'] at hscan
  exact (congrArg Prod.fst (Option.some.inj hscan)).symm

def Longest (l : Lexeme) (cs : List Char) : Prop :=
  ∀ l' : Lexeme, l'.WellFormed → l'.chars <+: cs → l'.chars.length ≤ l.chars.length

theorem longest_of_scan? {l : Lexeme} (h : scan? cs = some (l, rest)) : l.Longest cs := by
  rintro l' hl' ⟨r, rfl⟩
  exact length_le_of_scan? hl' h

/-- What is read is the longest lexeme that the text starts with. -/
theorem scan?_eq_some_iff {l : Lexeme} :
    scan? cs = some (l, rest) ↔ cs = l.chars ++ rest ∧ l.WellFormed ∧ l.Longest cs := by
  constructor
  · intro h
    exact ⟨(append_of_scan? h).2.symm, wellFormed_of_scan? h, longest_of_scan? h⟩
  · rintro ⟨rfl, hl, hlong⟩
    obtain ⟨c, w, hw, hc⟩ := begins_of_wellFormed hl
    obtain ⟨⟨l', rest'⟩, h⟩ : ∃ p, scan? (l.chars ++ rest) = some p := by
      rw [hw, List.cons_append, ← Option.ne_none_iff_exists', ne_eq, scan?_eq_none_iff, not_not]
      exact hc
    have happ := (append_of_scan? h).2
    -- both are prefixes of one text and neither is longer than the other
    have hlen : l'.chars.length = l.chars.length :=
      Nat.le_antisymm (hlong l' (wellFormed_of_scan? h) ⟨rest', happ⟩) (length_le_of_scan? hl h)
    obtain ⟨hchars, hrest⟩ := List.append_inj happ hlen
    rw [h, eq_of_chars (wellFormed_of_scan? h) hl hchars, hrest]

end ComplexCalc.Lexeme
