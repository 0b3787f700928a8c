import ComplexCalc.Proofs.Grammar.Parsing
import Mathlib.Data.List.Chain

/-! What never occurs in a sum: an equals sign, a comma outside the arguments of a call, two
operators side by side, a builtin without arguments. -/

namespace ComplexCalc.Grammar

/-- Whether what follows these tokens stands in the arguments of a call: the innermost parenthesis
that is open after them opens the arguments of a name or of a builtin. -/
def InArguments (ts : List Token) : Prop :=
  ∃ l t inner, ts = l ++ t :: .lparen :: inner ∧ ((∃ name, t = .ident name) ∨ ∃ f, t = .builtin f) ∧
    Token.parens.balanced inner = true

def MayPrecede (t u : Token) : Prop :=
  (∀ o o', t = .op o → u ≠ .op o') ∧ ∀ f, t = .builtin f → u = .lparen

def Closes (t : Token) : Prop := (∀ o, t ≠ .op o) ∧ ∀ f, t ≠ .builtin f

/-- What holds of the tokens of a sum and of those of arguments alike. -/
structure Tidy (ts : List Token) : Prop where
  chain : ts.IsChain MayPrecede
  last : ∀ t ∈ ts.getLast?, Closes t
  equals : .equals ∉ ts
  commas : ∀ l r, ts = l ++ .comma :: r → InArguments l ∨ Token.parens.depth? 0 l = some 0

theorem InArguments.append {ts : List Token} (h : InArguments ts) (l : List Token) :
    InArguments (l ++ ts) := by
  obtain ⟨l', t, inner, rfl, ht, hinner⟩ := h
  exact ⟨l ++ l', t, inner, by simp, ht, hinner⟩

theorem Closes.mayPrecede {t : Token} (h : Closes t) (u : Token) : MayPrecede t u :=
  ⟨fun o _ ho => absurd ho (h.1 o), fun f hf => absurd hf (h.2 f)⟩

namespace Tidy
variable {ts l r inner : List Token} {t : Token}

theorem nil : Tidy [] := ⟨.nil, by simp, by simp, by simp⟩

theorem token (ht : Closes t) (heq : t ≠ .equals) (hcomma : t ≠ .comma) : Tidy [t] where
  chain := .singleton t
  last := by simpa using ht
  equals := by simpa using heq.symm
  commas := by
    intro l r h
    have hmem : Token.comma ∈ [t] := h ▸ by simp
    exact absurd (List.mem_singleton.1 hmem).symm hcomma

theorem inArguments {tier : Nat} (h : Tidy ts) (hp : Phrase tier ts)
    (hts : ts = l ++ .comma :: r) : InArguments l := by
  refine (h.commas l r hts).resolve_right fun hl => ?_
  have hmem : .comma ∈ Token.parens.exposed 0 ts :=
    Brackets.mem_exposed_iff.2 ⟨l, r, hts, Brackets.foldl_step_of_depth? hl⟩
  exact hp.tight _ hmem

theorem join (hl : Tidy l) (hbal : Token.parens.depth? 0 l = some 0) (hr : Tidy r)
    (hne : r ≠ []) (hp : Token.parens.Plain t) (heq : t ≠ .equals)
    (hnext : ∀ u ∈ r.head?, MayPrecede t u) : Tidy (l ++ t :: r) where
  chain := by
    refine List.isChain_append.2 ⟨hl.chain, List.isChain_cons.2 ⟨hnext, hr.chain⟩, ?_⟩
    exact fun u hu v _ => (hl.last u hu).mayPrecede v
  last := by
    obtain ⟨u, r, rfl⟩ := List.exists_cons_of_ne_nil hne
    intro v hv
    rw [List.getLast?_append, List.getLast?_cons_cons] at hv
    refine hr.last v ?_
    simpa using hv
  equals := by
    simp only [List.mem_append, List.mem_cons, not_or]
    exact ⟨hl.equals, heq.symm, hr.equals⟩
  commas := by
    intro l' r' h
    -- the comma is the joining token itself, or it stands in one of the two runs
    rcases List.append_eq_append_iff.1 h with ⟨m, rfl, hm⟩ | ⟨m, rfl, hm⟩
    · cases m with
      | nil => exact .inr (by simpa using hbal)
      | cons u m =>
        obtain ⟨rfl, rfl⟩ := List.cons.inj hm
        rcases hr.commas m r' rfl with hin | hbal'
        · exact .inl ((hin.append [t]).append l)
        · refine .inr ?_
          rwa [Brackets.depth?_append_of_eq hbal, Brackets.depth?_cons_plain hp]
    · cases m with
      | nil => exact .inr (by simpa using hbal)
      | cons u m =>
        obtain ⟨rfl, -⟩ := List.cons.inj hm
        exact hl.commas l' m rfl

theorem isChain_group (h : Tidy inner) :
    (Token.lparen :: (inner ++ [Token.rparen])).IsChain MayPrecede := by
  have hopen (u : Token) : MayPrecede .lparen u := ⟨by simp, by simp⟩
  refine List.isChain_cons.2 ⟨fun u _ => hopen u, List.isChain_append.2 ⟨h.chain, .singleton _, ?_⟩⟩
  exact fun u hu v _ => (h.last u hu).mayPrecede v

theorem comma_in_group (h : Token.lparen :: (inner ++ [Token.rparen]) = l ++ .comma :: r) :
    ∃ l' r', l = .lparen :: l' ∧ inner = l' ++ .comma :: r' := by
  cases l with
  | nil => cases h
  | cons u l =>
    obtain ⟨rfl, hrest⟩ := List.cons.inj h
    rcases List.append_eq_append_iff.1 hrest with ⟨m, rfl, hm⟩ | ⟨m, rfl, hm⟩
    · cases m with
      | nil => cases hm
      | cons v m => cases m <;> cases hm
    · cases m with
      | nil => cases hm
      | cons v m =>
        obtain ⟨rfl, -⟩ := List.cons.inj hm
        exact ⟨l, m, rfl, rfl⟩

theorem group {tier : Nat} (h : Tidy inner) (hp : Phrase tier inner) :
    Tidy (.lparen :: (inner ++ [.rparen])) where
  chain := h.isChain_group
  last := by simp [List.getLast?_cons, Closes]
  equals := by simpa using h.equals
  commas := by
    intro l r heq
    obtain ⟨l', r', rfl, hinner⟩ := comma_in_group heq
    exact .inl ((h.inArguments hp hinner).append [.lparen])

theorem call (ht : (∃ name, t = .ident name) ∨ ∃ f, t = .builtin f) (h : Tidy inner) :
    Tidy (t :: .lparen :: (inner ++ [.rparen])) where
  chain := by
    refine List.isChain_cons_cons.2 ⟨⟨?_, fun _ _ => rfl⟩, h.isChain_group⟩
    exact fun _ _ _ => Token.noConfusion
  last := by simp [List.getLast?_cons, Closes]
  equals := by
    rcases ht with ⟨name, rfl⟩ | ⟨f, rfl⟩ <;> simpa using h.equals
  commas := by
    intro l r heq
    cases l with
    | nil => rcases ht with ⟨name, rfl⟩ | ⟨f, rfl⟩ <;> cases heq
    | cons u l =>
      obtain ⟨rfl, hrest⟩ := List.cons.inj heq
      obtain ⟨l', r', rfl, hinner⟩ := comma_in_group hrest
      rcases h.commas l' r' hinner with hin | hbal
      · exact .inl (hin.append [t, .lparen])
      · exact .inl ⟨[], t, l', rfl, ht, Brackets.balanced_eq_true_iff.2 hbal⟩

theorem binary {tier tier' : Nat} {o : Operator} (hl : Tidy l) (hpl : Phrase tier l)
    (hr : Tidy r) (hpr : Phrase tier' r) (hhead : ∀ u ∈ r.head?, ∀ o', u ≠ .op o') :
    Tidy (l ++ .op o :: r) := by
  refine hl.join hpl.balanced hr hpr.ne_nil (Token.plain_op o) Token.noConfusion ?_
  exact fun u hu => ⟨fun _ o' _ => hhead u hu o', by simp⟩

end Tidy

/-! Only a sum may begin with an operator. -/

mutual

theorem IsProduct.head_ne_op {ts : List Token} {e : Expr} :
    IsProduct ts e → ∀ t ∈ ts.head?, ∀ o, t ≠ .op o
  | .ofPower h => h.head_ne_op
  | .binary _ hl _ => by
    rw [List.head?_append_of_ne_nil _ hl.phrase.ne_nil]
    exact hl.head_ne_op

theorem IsPower.head_ne_op {ts : List Token} {e : Expr} :
    IsPower ts e → ∀ t ∈ ts.head?, ∀ o, t ≠ .op o
  | .ofAtom h => h.head_ne_op
  | .binary hl _ => by
    rw [List.head?_append_of_ne_nil _ hl.phrase.ne_nil]
    exact hl.head_ne_op

theorem IsAtom.head_ne_op {ts : List Token} {e : Expr} :
    IsAtom ts e → ∀ t ∈ ts.head?, ∀ o, t ≠ .op o
  | h => by cases h <;> simp

end

mutual

theorem IsSum.tidy {ts : List Token} {e : Expr} : IsSum ts e → Tidy ts
  | .ofProduct h => h.tidy
  | .binary _ hl hr => hl.tidy.binary hl.phrase hr.tidy hr.phrase hr.head_ne_op
  | .signed _ hr => by
    refine Tidy.nil.join rfl hr.tidy hr.phrase.ne_nil (Token.plain_op _) Token.noConfusion ?_
    exact fun u hu => ⟨fun _ o' _ => hr.head_ne_op u hu o', by simp⟩

theorem IsProduct.tidy {ts : List Token} {e : Expr} : IsProduct ts e → Tidy ts
  | .ofPower h => h.tidy
  | .binary _ hl hr => hl.tidy.binary hl.phrase hr.tidy hr.phrase hr.head_ne_op

theorem IsPower.tidy {ts : List Token} {e : Expr} : IsPower ts e → Tidy ts
  | .ofAtom h => h.tidy
  | .binary hl hr => hl.tidy.binary hl.phrase hr.tidy hr.phrase hr.head_ne_op

theorem IsAtom.tidy {ts : List Token} {e : Expr} : IsAtom ts e → Tidy ts
  | .real _ => .token (by simp [Closes]) (by simp) (by simp)
  | .constant _ => .token (by simp [Closes]) (by simp) (by simp)
  | .ident _ => .token (by simp [Closes]) (by simp) (by simp)
  | .call name h => .call (.inl ⟨name, rfl⟩) h.tidy
  | .builtin f h => .call (.inr ⟨f, rfl⟩) h.tidy
  | .group h => h.tidy.group h.phrase

theorem IsArguments.tidy {ts : List Token} {es : List Expr} : IsArguments ts es → Tidy ts
  | .none => .nil
  | .one h => h.tidy
  | .more h hrest => by
    refine h.tidy.join h.phrase.balanced hrest.tidy hrest.ne_nil ⟨rfl, rfl⟩ Token.noConfusion ?_
    exact fun u _ => ⟨by simp, by simp⟩

end

theorem Tidy.op_ne_op {l r : List Token} {o o' : Operator} (h : Tidy (l ++ .op o :: .op o' :: r)) :
    False := by
  have hchain := (List.isChain_append.1 h.chain).2.1
  exact (List.isChain_cons_cons.1 hchain).1.1 o o' rfl rfl

theorem Tidy.head?_of_builtin {l r : List Token} {f : Builtin} (h : Tidy (l ++ .builtin f :: r)) :
    r.head? = some .lparen := by
  cases r with
  | nil =>
    have hlast := h.last (.builtin f) (by simp)
    exact absurd rfl (hlast.2 f)
  | cons u r =>
    have hchain := (List.isChain_append.1 h.chain).2.1
    exact congrArg some ((List.isChain_cons_cons.1 hchain).1.2 f rfl)

/-- The lists of tokens that have a tree are the sums of the grammar, each with its only tree. So a
list with an equals sign has none, nor one with a comma outside the arguments of a call, a sign
after an operator, or a builtin that no parenthesis follows. -/
theorem ofTokens_accepts_exactly_sums (diagnostics : Bool) (tokens : List Token) :
    (∀ e, Expr.ofTokens diagnostics tokens = .ok e ↔ IsSum tokens e) ∧
    (∀ e e', IsSum tokens e → IsSum tokens e' → e = e') ∧
    ((∃ e, Expr.ofTokens diagnostics tokens = .ok e) →
      .equals ∉ tokens ∧
      (∀ l r, tokens = l ++ .comma :: r → InArguments l) ∧
      (∀ l r o o', tokens ≠ l ++ .op o :: .op o' :: r) ∧
      ∀ l r f, tokens = l ++ .builtin f :: r → r.head? = some .lparen) := by
  refine ⟨fun e => ofTokens_eq_ok_iff, fun e e' h h' => ?_, ?_⟩
  · have hok : Expr.ofTokens diagnostics tokens = .ok e := ofTokens_eq_ok_iff.2 h
    rw [ofTokens_eq_ok_iff.2 h'] at hok
    exact (Except.ok.inj hok).symm
  · rintro ⟨e, he⟩
    have hsum := ofTokens_eq_ok_iff.1 he
    refine ⟨hsum.tidy.equals, fun l r hts => hsum.tidy.inArguments hsum.phrase hts, ?_, ?_⟩
    · rintro l r o o' rfl
      exact hsum.tidy.op_ne_op
    · rintro l r f rfl
      exact hsum.tidy.head?_of_builtin

end ComplexCalc.Grammar
