import ComplexCalc.Error
import ComplexCalc.Text.Blank
import ComplexCalc.Token.Lexeme

/-! The tokens of a text, one at a time. A word that directly follows an operand is a factor, so a
multiplication sign is put before it: `2x` gives `2 * x` and `(a)b` gives `(a) * b`. Nothing is read
past a character that starts no token. -/

namespace ComplexCalc

structure Lexer where
  rest : List Char
  /-- A word whose multiplication sign has been given out, to be given out next. -/
  queued : Option Token
  afterOperand : Bool

namespace Lexer

def ofText (text : String) : Lexer := ⟨text.toList, none, false⟩

/-- The next token or error with the state after it; `none` at the end of the text. -/
def next? (l : Lexer) : Option (Except LexError Token × Lexer) :=
  match l.queued with
  | some t => some (.ok t, ⟨l.rest, none, t.endsOperand⟩)
  | none =>
    match l.rest.dropWhile Text.isBlank with
    | [] => none
    | c :: cs =>
      match Lexeme.scan? (c :: cs) with
      | none => some (.error (.unexpectedChar c), ⟨[], none, l.afterOperand⟩)
      | some (lexeme, rest) =>
        let t := lexeme.token
        if l.afterOperand && t.isWord then some (.ok (.op .mul), ⟨rest, some t, false⟩)
        else some (.ok t, ⟨rest, none, t.endsOperand⟩)

def pending (l : Lexer) : Nat := 2 * l.rest.length + l.queued.toList.length

theorem pending_lt_of_next? {l l' : Lexer} {item : Except LexError Token}
    (h : l.next? = some (item, l')) : l'.pending < l.pending := by
  obtain ⟨text, queued, after⟩ := l
  have hdrop := (List.dropWhile_sublist Text.isBlank (l := text)).length_le
  unfold next? at h
  cases queued with
  | some t =>
    cases h
    simp [pending]
  | none =>
    dsimp only at h
    split at h
    · cases h
    · rename_i c cs hcs
      rw [hcs] at hdrop
      split at h
      · cases h
        simp only [pending, List.length_cons, List.length_nil, Option.toList] at *
        omega
      · rename_i lexeme rest hscan
        have hrest := Lexeme.length_lt_of_scan? hscan
        split at h <;> cases h <;>
          simp only [pending, List.length_cons, List.length_nil, Option.toList] at * <;> omega

def items (l : Lexer) : List (Except LexError Token) :=
  match _h : l.next? with
  | none => []
  | some (item, l') => item :: l'.items
termination_by l.pending
decreasing_by exact pending_lt_of_next? _h

end Lexer

def tokenize (line : String) : Except LexError (List Token) := (Lexer.ofText line).items.mapM id

end ComplexCalc
