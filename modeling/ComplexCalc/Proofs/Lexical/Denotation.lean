import ComplexCalc.Proofs.Lexical.Tiling

/-! The tokens that the pieces of a text stand for, by the tables of names and symbols: a blank for
none, a numeral for its value, a word for the builtin function of its name, else the constant, else
an identifier, and a symbol for itself. -/

namespace ComplexCalc

theorem lookup_eq_some_iff_mem {α β : Type} [DecidableEq α] {entries : List (α × β)} {key : α}
    {value : β} (h : (entries.map Prod.fst).Nodup) :
    entries.lookup key = some value ↔ (key, value) ∈ entries := by
  induction entries with
  | nil => simp
  | cons entry entries ih =>
    obtain ⟨key', value'⟩ := entry
    obtain ⟨hkey', hkeys⟩ := List.nodup_cons.1 h
    rw [List.lookup_cons, List.mem_cons, ← ih hkeys]
    by_cases heq : key = key'
    · subst heq
      have hnone : entries.lookup key ≠ some value := fun hsome =>
        hkey' (List.mem_map.2 ⟨_, (ih hkeys).1 hsome, rfl⟩)
      simp [hnone, eq_comm]
    · simp [heq, beq_eq_false_iff_ne.2 heq]

namespace Builtin
variable {name : String}

theorem ofName?_eq_some_iff {f : Builtin} : ofName? name = some f ↔ (name, f) ∈ names :=
  lookup_eq_some_iff_mem (by decide)

theorem ofName?_eq_none_iff : ofName? name = none ↔ ∀ f, (name, f) ∉ names := by
  simp only [Option.eq_none_iff_forall_ne_some, ne_eq, ofName?_eq_some_iff]

end Builtin

namespace Constant
variable {name : String}

theorem ofName?_eq_some_iff {c : Constant} : ofName? name = some c ↔ (name, c) ∈ names :=
  lookup_eq_some_iff_mem (by decide)

theorem ofName?_eq_none_iff : ofName? name = none ↔ ∀ c, (name, c) ∉ names := by
  simp only [Option.eq_none_iff_forall_ne_some, ne_eq, ofName?_eq_some_iff]

end Constant

namespace Token

def symbolTokens : List (Char × Token) :=
  [(',', comma), ('=', equals), ('(', lparen), (')', rparen), ('*', op .mul), ('/', op .div),
   ('+', op .add), ('-', op .sub), ('^', op .pow)]

theorem mem_symbolTokens_of_ofSymbol? {c : Char} {t : Token} (h : ofSymbol? c = some t) :
    (c, t) ∈ symbolTokens := by
  unfold ofSymbol? at h
  split at h <;> cases h <;> decide

end Token

namespace Lexeme

inductive Denotes : Lexeme → Token → Prop
  | number (l : Decimal.Literal) : Denotes (number l) (.real l.value)
  | builtin {cs : List Char} {f : Builtin} : (String.ofList cs, f) ∈ Builtin.names →
    Denotes (word cs) (.builtin f)
  | constant {cs : List Char} {c : Constant} : (∀ f, (String.ofList cs, f) ∉ Builtin.names) →
    (String.ofList cs, c) ∈ Constant.names → Denotes (word cs) (.constant c)
  | ident {cs : List Char} : (∀ f, (String.ofList cs, f) ∉ Builtin.names) →
    (∀ c, (String.ofList cs, c) ∉ Constant.names) →
    Denotes (word cs) (.ident (String.ofList cs))
  | symbol {c : Char} {t : Token} : (symbol t).chars = [c] → (c, t) ∈ Token.symbolTokens →
    Denotes (symbol t) t

variable {l : Lexeme} {t : Token}

theorem denotes_token (hl : l.WellFormed) : l.Denotes l.token := by
  cases l with
  | number l => exact .number l
  | word cs =>
    rw [token, Token.ofWord]
    cases hbuiltin : Builtin.ofName? (String.ofList cs) with
    | some f => exact .builtin (Builtin.ofName?_eq_some_iff.1 hbuiltin)
    | none =>
      rw [Builtin.ofName?_eq_none_iff] at hbuiltin
      cases hconstant : Constant.ofName? (String.ofList cs) with
      | some c => exact .constant hbuiltin (Constant.ofName?_eq_some_iff.1 hconstant)
      | none => exact .ident hbuiltin (Constant.ofName?_eq_none_iff.1 hconstant)
  | symbol t =>
    obtain ⟨c, hc⟩ := hl
    exact .symbol (text_of_ofSymbol? hc) (Token.mem_symbolTokens_of_ofSymbol? hc)

theorem Denotes.eq_token (h : l.Denotes t) : t = l.token := by
  cases h with
  | number l => rfl
  | builtin hf => rw [token, Token.ofWord, Builtin.ofName?_eq_some_iff.2 hf]
  | constant hnone hc =>
    rw [token, Token.ofWord, Builtin.ofName?_eq_none_iff.2 hnone,
      Constant.ofName?_eq_some_iff.2 hc]
  | ident hnone hnone' =>
    rw [token, Token.ofWord, Builtin.ofName?_eq_none_iff.2 hnone,
      Constant.ofName?_eq_none_iff.2 hnone']
  | symbol => rfl

end Lexeme

inductive Denote : List Piece → List Token → Prop
  | nil : Denote [] []
  | blank {c : Char} {ps : List Piece} {ts : List Token} : Denote ps ts →
    Denote (.blank c :: ps) ts
  | lexeme {l : Lexeme} {t : Token} {ps : List Piece} {ts : List Token} : l.Denotes t →
    Denote ps ts → Denote (.lexeme l :: ps) (t :: ts)

theorem Tiling.denote {cs left : List Char} {ps : List Piece} (h : Tiling cs ps left) :
    Denote ps (ps.filterMap Piece.token?) := by
  induction h with
  | done | unknown => exact .nil
  | blank _ _ ih => exact .blank ih
  | lexeme _ hl _ _ ih => exact .lexeme (Lexeme.denotes_token hl) ih

theorem Denote.eq_tokens {ps : List Piece} {ts : List Token} (h : Denote ps ts) :
    ts = ps.filterMap Piece.token? := by
  induction h with
  | nil => rfl
  | blank _ ih => exact ih
  | lexeme hl _ ih => rw [ih, hl.eq_token]; rfl

end ComplexCalc
