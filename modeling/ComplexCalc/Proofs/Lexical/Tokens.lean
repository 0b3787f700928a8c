import ComplexCalc.Proofs.Decimal.Unsigned
import ComplexCalc.Proofs.Lexical.Iteration
import Mathlib.Data.List.Chain

/-! Which lists of tokens a text may have: the identifiers are words without another meaning, the
numbers have no sign, and no two neighbours still need a multiplication sign. -/

namespace ComplexCalc

namespace Token

structure IsName (name : String) : Prop where
  spelling : ∃ c rest, name.toList = c :: rest ∧ Text.isLetter c = true ∧
    ∀ x ∈ rest, Text.isWordChar x = true
  meaning : ofWord name = .ident name

/-- Whether a token may come from a lexeme or be a multiplication sign. -/
def Lexed : Token → Prop
  | real x => Double.Unsigned x
  | ident name => IsName name
  | _ => True

variable {name : String} {t u : Token} {ts : List Token} {after : Bool}

theorem ofWord_eq_ident_iff :
    ofWord name = .ident name ↔ Builtin.ofName? name = none ∧ Constant.ofName? name = none := by
  unfold ofWord
  split
  · simp_all
  · split <;> simp_all

theorem IsName.not_mem_builtins (h : IsName name) (f : Builtin) : (name, f) ∉ Builtin.names :=
  Builtin.ofName?_eq_none_iff.1 (ofWord_eq_ident_iff.1 h.meaning).1 f

theorem IsName.not_mem_constants (h : IsName name) (c : Constant) :
    (name, c) ∉ Constant.names :=
  Constant.ofName?_eq_none_iff.1 (ofWord_eq_ident_iff.1 h.meaning).2 c

theorem mem_builtin_names (f : Builtin) : (f.name, f) ∈ Builtin.names := by cases f <;> decide

theorem mem_constant_names (c : Constant) : (c.name, c) ∈ Constant.names := by cases c <;> decide

theorem lexed_of_ofSymbol? {c : Char} (h : ofSymbol? c = some t) : t.Lexed := by
  unfold ofSymbol? at h
  split at h <;> cases h <;> trivial

theorem lexed_ofWord (h : (Lexeme.word name.toList).WellFormed) : (ofWord name).Lexed := by
  unfold ofWord
  split
  · trivial
  · rename_i hbuiltin
    split
    · trivial
    · rename_i hconstant
      exact ⟨h, ofWord_eq_ident_iff.2 ⟨hbuiltin, hconstant⟩⟩

theorem mem_factors (h : t ∈ factors after ts) : t = .op .mul ∨ t ∈ ts := by
  induction ts generalizing after with
  | nil => exact .inr h
  | cons u ts ih =>
    rw [factors] at h
    split at h <;> simp only [List.mem_cons] at h ⊢
    · rcases h with h | h | h
      · exact .inl h
      · exact .inr (.inl h)
      · exact (ih h).imp_right .inr
    · rcases h with h | h
      · exact .inr (.inl h)
      · exact (ih h).imp_right .inr

theorem not_juxtaposed_mul_left : ¬ Juxtaposed (.op .mul) u := by
  rw [juxtaposed_iff]
  nofun

theorem not_juxtaposed_mul_right : ¬ Juxtaposed t (.op .mul) := by
  rw [juxtaposed_iff, Bool.and_eq_true]
  rintro ⟨-, h⟩
  cases h

theorem isChain_factors (t : Token) (ts : List Token) :
    (t :: factors t.endsOperand ts).IsChain (fun t u => ¬ Juxtaposed t u) := by
  induction ts generalizing t with
  | nil => exact .singleton t
  | cons u ts ih =>
    rw [factors]
    split
    -- a sign that was put in neither ends an operand nor is a word
    · exact .cons_cons not_juxtaposed_mul_right (.cons_cons not_juxtaposed_mul_left (ih u))
    · rename_i hfactor
      exact .cons_cons (mt juxtaposed_iff.1 hfactor) (ih u)

theorem isChain_withProducts (ts : List Token) :
    (withProducts ts).IsChain (fun t u => ¬ Juxtaposed t u) := by
  cases ts with
  | nil => exact .nil
  | cons t ts =>
    rw [withProducts_cons]
    exact isChain_factors t ts

theorem withProducts_eq_self (h : ts.IsChain (fun t u => ¬ Juxtaposed t u)) :
    withProducts ts = ts := by
  induction ts using withProducts.induct with
  | case1 => rfl
  | case2 t => rfl
  | case3 t u ts hjuxtaposed ih => exact absurd hjuxtaposed (List.isChain_cons_cons.1 h).1
  | case4 t u ts hjuxtaposed ih =>
    rw [withProducts, if_neg hjuxtaposed, ih (List.isChain_cons_cons.1 h).2]

end Token

theorem Lexeme.WellFormed.lexed {l : Lexeme} (h : l.WellFormed) : l.token.Lexed := by
  cases l with
  | number l => exact l.unsigned_value
  | word cs =>
    refine Token.lexed_ofWord ?_
    rwa [String.toList_ofList]
  | symbol t =>
    obtain ⟨c, hc⟩ := h
    exact Token.lexed_of_ofSymbol? hc

theorem Tiling.lexed {cs left : List Char} {ps : List Piece} (h : Tiling cs ps left) :
    ∀ t ∈ ps.filterMap Piece.token?, t.Lexed := by
  induction h with
  | done => nofun
  | unknown => nofun
  | blank _ _ ih => exact ih
  | lexeme _ hl _ _ ih =>
    intro t ht
    rcases List.mem_cons.1 ht with rfl | ht
    · exact hl.lexed
    · exact ih t ht

theorem tokenize_eq_ok {text : String} {ts : List Token} (h : tokenize text = .ok ts) :
    (∀ t ∈ ts, t.Lexed) ∧ ts.IsChain (fun t u => ¬ Token.Juxtaposed t u) := by
  obtain ⟨ps, htiling, rfl⟩ := Lexer.exists_tiling_of_tokenize h
  refine ⟨fun t ht => ?_, Token.isChain_withProducts _⟩
  rw [← Token.factors_false] at ht
  rcases Token.mem_factors ht with rfl | ht
  · trivial
  · exact htiling.lexed t ht

end ComplexCalc
