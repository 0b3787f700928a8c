import ComplexCalc.Text.Numeric
import ComplexCalc.Token.Basic

/-! Lexemes: the pieces of text that tokens are made from, each as long as possible. A lexeme is
never empty, and it and the rest make up the text it was read from. -/

namespace ComplexCalc

inductive Lexeme
  | number (l : Decimal.Literal)
  | word (cs : List Char)
  | symbol (t : Token)
  deriving DecidableEq

namespace Lexeme

def chars : Lexeme → List Char
  | number l => l.chars
  | word cs => cs
  | symbol t => t.text.toList

def token : Lexeme → Token
  | number l => .real l.value
  | word cs => .ofWord (String.ofList cs)
  | symbol t => t

def scanWord? : List Char → Option (Lexeme × List Char)
  | [] => none
  | c :: cs =>
    if Text.isLetter c then
      some (word (c :: cs.takeWhile Text.isWordChar), cs.dropWhile Text.isWordChar)
    else none

def scanSymbol? : List Char → Option (Lexeme × List Char)
  | [] => none
  | c :: cs => (Token.ofSymbol? c).map fun t => (symbol t, cs)

def scan? (cs : List Char) : Option (Lexeme × List Char) :=
  match Decimal.Literal.scan? cs with
  | some p => some (number p.1, p.2)
  | none => (scanWord? cs).or (scanSymbol? cs)

theorem text_of_ofSymbol? {c : Char} {t : Token} (h : Token.ofSymbol? c = some t) :
    t.text.toList = [c] := by
  unfold Token.ofSymbol? at h
  split at h <;> cases h <;> rfl

theorem append_of_scanWord? {cs rest : List Char} {l : Lexeme}
    (h : scanWord? cs = some (l, rest)) : l.chars ≠ [] ∧ l.chars ++ rest = cs := by
  cases cs with
  | nil => cases h
  | cons c cs =>
    simp only [scanWord?] at h
    split at h <;> cases h
    simp [chars, List.takeWhile_append_dropWhile]

theorem append_of_scanSymbol? {cs rest : List Char} {l : Lexeme}
    (h : scanSymbol? cs = some (l, rest)) : l.chars ≠ [] ∧ l.chars ++ rest = cs := by
  cases cs with
  | nil => cases h
  | cons c cs =>
    obtain ⟨t, ht, hl⟩ := Option.map_eq_some_iff.1 h
    cases hl
    simp [chars, text_of_ofSymbol? ht]

theorem append_of_scan? {cs rest : List Char} {l : Lexeme} (h : scan? cs = some (l, rest)) :
    l.chars ≠ [] ∧ l.chars ++ rest = cs := by
  unfold scan? at h
  split at h
  · rename_i p hp
    cases h
    exact ⟨Decimal.Literal.chars_ne_nil_of_scan? hp, Decimal.Literal.append_of_scan? hp⟩
  · rcases Option.or_eq_some_iff.1 h with h | ⟨-, h⟩
    · exact append_of_scanWord? h
    · exact append_of_scanSymbol? h

theorem length_lt_of_scan? {cs rest : List Char} {l : Lexeme} (h : scan? cs = some (l, rest)) :
    rest.length < cs.length := by
  obtain ⟨hne, rfl⟩ := append_of_scan? h
  have := List.length_pos_iff.2 hne
  simp only [List.length_append]
  omega

end Lexeme

end ComplexCalc
