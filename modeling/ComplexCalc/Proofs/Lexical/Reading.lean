import ComplexCalc.Proofs.Decimal.Positional
import ComplexCalc.Proofs.Lexical.Iteration

/-! Texts that are read to the end, built from the right: what stands in front of a text that is
read gives one more token, or none if it is a blank. -/

namespace ComplexCalc

def Reads (cs : List Char) (ts : List Token) : Prop :=
  ∃ ps, Tiling cs ps [] ∧ ps.filterMap Piece.token? = ts

namespace Reads
variable {c : Char} {cs rest : List Char} {ts : List Token}

theorem nil : Reads [] [] := ⟨[], .done, rfl⟩

theorem blank (hc : Text.isBlank c = true) (h : Reads cs ts) : Reads (c :: cs) ts := by
  obtain ⟨ps, htiling, rfl⟩ := h
  exact ⟨.blank c :: ps, .blank hc htiling, rfl⟩

theorem lexeme {l : Lexeme} (hscan : Lexeme.scan? cs = some (l, rest)) (h : Reads rest ts) :
    Reads cs (l.token :: ts) := by
  obtain ⟨ps, htiling, rfl⟩ := h
  obtain ⟨happ, hl, hlong⟩ := Lexeme.scan?_eq_some_iff.1 hscan
  exact ⟨.lexeme l :: ps, .lexeme happ hl hlong htiling, rfl⟩

theorem symbol {t : Token} (ht : Token.ofSymbol? c = some t) (h : Reads cs ts) :
    Reads (c :: cs) (t :: ts) := by
  obtain ⟨hdigit, hletter, -⟩ := Token.symbols_apart (Token.mem_symbols_of_ofSymbol? ht)
  have hscan : Lexeme.scan? (c :: cs) = some (.symbol t, cs) := by
    rw [Lexeme.scan?_cons, hdigit, hletter, ht]
    rfl
  exact lexeme hscan h

theorem literal {l : Decimal.Literal} (hl : l.Plain)
    (hrest : ∀ x ∈ rest.head?, x.isDigit = false ∧ x ≠ '.' ∧ x ≠ 'e' ∧ x ≠ 'E')
    (h : Reads rest ts) : Reads (l.chars ++ rest) (.real l.value :: ts) := by
  have hends : l.Ends rest := by
    refine ⟨fun x hx => (hrest x hx).1, fun _ => ?_, fun _ _ => ?_⟩
    · cases rest with
      | nil => rfl
      | cons x rest =>
        obtain ⟨-, -, hlower, hupper⟩ := hrest x rfl
        exact if_neg fun hmark => hmark.elim hlower hupper
    · intro hpoint
      exact (hrest '.' hpoint).2.1 rfl
  have hscan : Lexeme.scan? (l.chars ++ rest) = some (.number l, rest) := by
    rw [Lexeme.scan?, Decimal.Literal.scan?_append hl.wellFormed hends]
  exact lexeme hscan h

theorem word {w : List Char} (hc : Text.isLetter c = true)
    (hw : ∀ x ∈ w, Text.isWordChar x = true)
    (hrest : ∀ x ∈ rest.head?, Text.isWordChar x = false) (h : Reads rest ts) :
    Reads (c :: w ++ rest) (Token.ofWord (String.ofList (c :: w)) :: ts) := by
  have htake : rest.takeWhile Text.isWordChar = [] ∧ rest.dropWhile Text.isWordChar = rest := by
    cases rest with
    | nil => exact ⟨rfl, rfl⟩
    | cons x rest => simp [hrest x rfl]
  have hscan : Lexeme.scan? (c :: w ++ rest) = some (.word (c :: w), rest) := by
    rw [List.cons_append, Lexeme.scan?_cons, Text.isDigit_eq_false_of_isLetter hc,
      if_neg Bool.false_ne_true, if_pos hc, List.takeWhile_append_of_pos hw,
      List.dropWhile_append_of_pos hw, htake.1, htake.2, List.append_nil]
  exact lexeme hscan h

theorem tokenize_eq {text : String} (h : Reads text.toList ts) :
    tokenize text = .ok (Token.withProducts ts) := by
  obtain ⟨ps, htiling, rfl⟩ := h
  exact Lexer.tokenize_of_tiling htiling

end Reads

end ComplexCalc
