import ComplexCalc.Proofs.Lexical.Iteration
import Mathlib.Data.List.Basic

/-! Parentheses, commas and equals signs are tokens wherever they stand in a text, so they can be
counted and compared in the text itself. A semicolon is never part of a token. -/

namespace ComplexCalc

namespace Token

/-- The tokens that no number and no word has the character of. -/
def isMark : Token → Bool
  | lparen | rparen | comma | equals => true
  | _ => false

def mark? (c : Char) : Option Token := (ofSymbol? c).filter isMark

variable {c : Char} {cs : List Char}

theorem mark?_eq_equals_iff : mark? c = some equals ↔ c = '=' := by
  constructor
  · intro h
    have hc := (Option.filter_eq_some_iff.1 h).1
    unfold ofSymbol? at hc
    split at hc <;> first | rfl | cases hc
  · rintro rfl
    rfl

theorem mark?_of_not_mem (h : c ∉ symbols) : mark? c = none := by
  rw [mark?, ofSymbol?_eq_none_iff.2 h]
  rfl

theorem mark?_of_isBlank (h : Text.isBlank c = true) : mark? c = none :=
  mark?_of_not_mem fun hmem => by simp [(symbols_apart hmem).2.2] at h

theorem isWordChar_eq_false_of_mem_symbols (h : c ∈ symbols) : Text.isWordChar c = false := by
  have hall : (symbols.all fun c => !Text.inRanges Text.numericRanges c) = true := by
    decide +kernel
  have hnumeric : Text.inRanges Text.numericRanges c = false := by
    simpa using List.all_eq_true.1 hall c h
  obtain ⟨hdigit, hletter, -⟩ := symbols_apart h
  rw [Text.isWordChar, Text.isNumeric, hdigit, hletter, hnumeric]
  rfl

theorem mark?_of_isWordChar (h : Text.isWordChar c = true) : mark? c = none :=
  mark?_of_not_mem fun hmem => by simp [isWordChar_eq_false_of_mem_symbols hmem] at h

theorem filterMap_mark? (h : ∀ c ∈ cs, mark? c = none) : cs.filterMap mark? = [] :=
  List.filterMap_eq_nil_iff.2 h

theorem isMark_ofWord (word : String) : (ofWord word).isMark = false := by
  unfold ofWord
  split
  · rfl
  · split <;> rfl

theorem filter_isMark_factors (after : Bool) (ts : List Token) :
    (factors after ts).filter isMark = ts.filter isMark := by
  induction ts generalizing after with
  | nil => rfl
  | cons t ts ih =>
    rw [factors]
    split
    · rw [List.filter_cons_of_neg (by simp [isMark]), List.filter_cons, List.filter_cons, ih]
    · rw [List.filter_cons, List.filter_cons, ih]

end Token

open Token

theorem Decimal.Literal.WellFormed.chars_cases {l : Decimal.Literal} (h : l.WellFormed) :
    ∀ c ∈ l.chars, Text.isWordChar c = true ∨ c = '.' ∨ c = '+' ∨ c = '-' := by
  have hdigits {cs : List Char} (hcs : ∀ c ∈ cs, c.isDigit = true) :
      ∀ c ∈ cs, Text.isWordChar c = true ∨ c = '.' ∨ c = '+' ∨ c = '-' := by
    intro c hc
    left
    rw [Text.isWordChar, Text.isNumeric, hcs c hc, Bool.true_or, Bool.or_true]
  rw [Decimal.Literal.chars]
  refine List.forall_mem_append.2 ⟨hdigits h.whole, List.forall_mem_append.2 ⟨?_, ?_⟩⟩
  · cases hfraction : l.fraction with
    | none => exact List.forall_mem_nil _
    | some ds => exact List.forall_mem_cons.2 ⟨.inr (.inl rfl), hdigits (h.fraction ds hfraction)⟩
  · cases hexponent : l.exponent with
    | none => exact List.forall_mem_nil _
    | some e =>
      have he := h.exponent e hexponent
      refine List.forall_mem_cons.2 ⟨?_, List.forall_mem_append.2 ⟨?_, hdigits he.digits⟩⟩
      · rcases he.mark with hmark | hmark <;> rw [hmark] <;> exact .inl (by decide +kernel)
      · exact fun s hs => .inr (.inr (he.sign s (Option.mem_toList.1 hs)))

theorem Decimal.Literal.WellFormed.mark?_eq_none {l : Decimal.Literal} (h : l.WellFormed) :
    ∀ c ∈ l.chars, Token.mark? c = none := by
  intro c hc
  rcases h.chars_cases c hc with hword | rfl | rfl | rfl
  · exact mark?_of_isWordChar hword
  · rfl
  · rfl
  · rfl

theorem Lexeme.WellFormed.isWordChar {cs : List Char} (h : (Lexeme.word cs).WellFormed) :
    ∀ c ∈ cs, Text.isWordChar c = true := by
  obtain ⟨c, rest, rfl, hletter, hrest⟩ := h
  exact List.forall_mem_cons.2 ⟨by rw [Text.isWordChar, hletter, Bool.true_or], hrest⟩

theorem Lexeme.WellFormed.filterMap_mark? {l : Lexeme} (h : l.WellFormed) :
    l.chars.filterMap mark? = [l.token].filter isMark := by
  cases l with
  | number l => exact Token.filterMap_mark? (Decimal.Literal.WellFormed.mark?_eq_none h)
  | word cs =>
    rw [Lexeme.token, List.filter_singleton, isMark_ofWord]
    exact Token.filterMap_mark? fun c hc => mark?_of_isWordChar (h.isWordChar c hc)
  | symbol t =>
    obtain ⟨c, hc⟩ := h
    rw [Lexeme.chars, Lexeme.text_of_ofSymbol? hc, Lexeme.token, List.filter_singleton,
      List.filterMap_cons, mark?, hc, Option.filter_some]
    cases t.isMark <;> rfl

theorem Tiling.filterMap_mark? {cs left : List Char} {ps : List Piece} (h : Tiling cs ps left) :
    (ps.flatMap Piece.chars).filterMap mark? = (ps.filterMap Piece.token?).filter isMark := by
  induction h with
  | done => rfl
  | unknown => rfl
  | blank hb _ ih =>
    rw [List.flatMap_cons, List.filterMap_append, ih, Piece.chars,
      Token.filterMap_mark? (List.forall_mem_singleton.2 (mark?_of_isBlank hb))]
    rfl
  | @lexeme l _ _ _ ps _ hl _ _ ih =>
    rw [List.flatMap_cons, List.filterMap_append, ih, Piece.chars, hl.filterMap_mark?]
    exact (List.filter_append [l.token] _).symm

theorem filterMap_mark?_of_tokenize {text : String} {ts : List Token}
    (h : tokenize text = .ok ts) : text.toList.filterMap mark? = ts.filter isMark := by
  obtain ⟨ps, htiling, rfl⟩ := Lexer.exists_tiling_of_tokenize h
  rw [← htiling.flatMap_chars, List.append_nil, htiling.filterMap_mark?, ← factors_false,
    filter_isMark_factors]

theorem Lexeme.WellFormed.chars_cases {l : Lexeme} (h : l.WellFormed) :
    ∀ c ∈ l.chars, Text.isWordChar c = true ∨ c = '.' ∨ c ∈ symbols := by
  intro c hc
  cases l with
  | number l =>
    rcases Decimal.Literal.WellFormed.chars_cases h c hc with hword | rfl | rfl | rfl
    · exact .inl hword
    · exact .inr (.inl rfl)
    · exact .inr (.inr (by decide))
    · exact .inr (.inr (by decide))
  | word cs => exact .inl (h.isWordChar c hc)
  | symbol t =>
    obtain ⟨x, hx⟩ := h
    rw [Lexeme.chars, Lexeme.text_of_ofSymbol? hx, List.mem_singleton] at hc
    exact .inr (.inr (hc ▸ mem_symbols_of_ofSymbol? hx))

theorem Lexeme.WellFormed.semicolon_not_mem {l : Lexeme} (h : l.WellFormed) : ';' ∉ l.chars := by
  have hword : ¬ Text.isWordChar ';' = true := by decide +kernel
  intro hmem
  rcases h.chars_cases ';' hmem with hc | hc | hc
  · exact hword hc
  · exact absurd hc (by decide)
  · exact absurd hc (by decide)

theorem Tiling.semicolon_not_mem {cs left : List Char} {ps : List Piece} (h : Tiling cs ps left) :
    ';' ∉ ps.flatMap Piece.chars := by
  induction h with
  | done => exact List.not_mem_nil
  | unknown => exact List.not_mem_nil
  | blank hb _ ih =>
    rw [List.flatMap_cons, List.mem_append, not_or]
    refine ⟨fun hmem => ?_, ih⟩
    rw [← List.mem_singleton.1 hmem] at hb
    exact absurd hb (by decide)
  | lexeme _ hl _ _ ih =>
    rw [List.flatMap_cons, List.mem_append, not_or]
    exact ⟨hl.semicolon_not_mem, ih⟩

theorem semicolon_not_mem_of_tokenize {text : String} {ts : List Token}
    (h : tokenize text = .ok ts) : ';' ∉ text.toList := by
  obtain ⟨ps, htiling, -⟩ := Lexer.exists_tiling_of_tokenize h
  rw [← htiling.flatMap_chars, List.append_nil]
  exact htiling.semicolon_not_mem

end ComplexCalc
