import ComplexCalc.Expr.Outline
import ComplexCalc.Proofs.Grammar.Leaves
import ComplexCalc.Proofs.Lexical.Rendering
import ComplexCalc.Proofs.Lexical.Seams

/-! The labels that nodes are printed with. The label of a node that a finite token made is the text
of a lexeme, so it has no blanks and tells which token that was. -/

namespace ComplexCalc

namespace Token
variable {name : String} {t u : Token}

theorem exists_lexeme_of_word (hname : (Lexeme.word name.toList).WellFormed)
    (ht : ofWord name = t) : ∃ l : Lexeme, l.WellFormed ∧ l.chars = name.toList ∧ l.token = t := by
  refine ⟨.word name.toList, hname, rfl, ?_⟩
  rw [Lexeme.token, String.ofList_toList, ht]

theorem Printable.exists_lexeme (ht : t.Printable) :
    ∃ l : Lexeme, l.WellFormed ∧ l.chars = t.text.toList ∧ l.token = t := by
  have symbol (c : Char) (hc : ofSymbol? c = some t) :
      ∃ l : Lexeme, l.WellFormed ∧ l.chars = t.text.toList ∧ l.token = t :=
    ⟨.symbol t, ⟨c, hc⟩, rfl, rfl⟩
  cases t with
  | real x =>
    obtain ⟨hfinite, hsign⟩ := ht
    obtain ⟨hplain, hvalue⟩ := Decimal.shortest_reads_back (Double.isFinite_iff.1 hfinite) hsign
    exact ⟨.number (Decimal.shortest x), hplain.wellFormed,
      (Number.text_of_not_negative (.of_not_negative hfinite hsign) hsign).symm,
      congrArg real hvalue⟩
  | constant c => exact exists_lexeme_of_word (name_of_constant c).1 (name_of_constant c).2
  | ident name => exact exists_lexeme_of_word ht.spelling ht.meaning
  | builtin f => exact exists_lexeme_of_word (name_of_builtin f).1 (name_of_builtin f).2
  | op o =>
    cases o with
    | add => exact symbol '+' rfl
    | sub => exact symbol '-' rfl
    | mul => exact symbol '*' rfl
    | div => exact symbol '/' rfl
    | pow => exact symbol '^' rfl
  | lparen => exact symbol '(' rfl
  | rparen => exact symbol ')' rfl
  | comma => exact symbol ',' rfl
  | equals => exact symbol '=' rfl

theorem Printable.eq_of_text (ht : t.Printable) (hu : u.Printable) (h : t.text = u.text) :
    t = u := by
  obtain ⟨l, hl, hchars, rfl⟩ := ht.exists_lexeme
  obtain ⟨l', hl', hchars', rfl⟩ := hu.exists_lexeme
  rw [Lexeme.eq_of_chars hl hl' (by rw [hchars, hchars', h])]

end Token

namespace Node
variable {n n' : Node}

def label : Node → String
  | number z => z.text
  | constant c => c.name
  | call name _ => name
  | builtin f _ => f.name
  | binary o => o.symbol

theorem label_eq_text (h : n.MadeOf Token.Printable) : n.label = n.token.text := by
  cases n with
  | number z =>
    obtain ⟨x, y⟩ := z
    obtain rfl : y = 0 := h.isReal
    obtain ⟨hfinite, hsign⟩ : x.isFinite = true ∧ Double.isNegative x = false := h.token
    have hx : (if x == 0 then 0 else x) = x := by
      rcases Number.Written.of_not_negative hfinite hsign with rfl | hnonzero
      · exact ite_self _
      · exact if_neg fun hbeq => ((Double.beq_zero_iff hfinite).1 hbeq).not_isNonzero hnonzero
    have himaginary : ((0 : Float) == 0) = true :=
      Double.beq_of_isZero Double.isZero_zero Double.isZero_zero
    simp only [label, token, Token.text, Number.text, himaginary, hx, if_true]
  | _ => rfl

theorem token_eq_of_label (h : n.MadeOf Token.Printable) (h' : n'.MadeOf Token.Printable)
    (hlabel : n.label = n'.label) : n.token = n'.token := by
  rw [label_eq_text h, label_eq_text h'] at hlabel
  exact h.token.eq_of_text h'.token hlabel

theorem label_not_blank (h : n.MadeOf Token.Printable) :
    ∀ c ∈ n.label.toList, Text.isBlank c = false := by
  obtain ⟨l, hl, hchars, -⟩ := h.token.exists_lexeme
  rw [label_eq_text h, ← hchars]
  exact hl.not_blank

end Node

end ComplexCalc
