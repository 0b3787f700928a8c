import ComplexCalc.Proofs.Except
import ComplexCalc.Proofs.Grammar.Splitting

/-! A list of tokens has a tree exactly if it is a sum, and the tree is that of its derivation. One
direction follows the recursion over shapes, the other one the derivation. -/

namespace ComplexCalc.Grammar
variable {diagnostics : Bool} {ts l r inner : List Token} {e lhs rhs : Expr} {es : List Expr}
  {o : Operator}

theorem op_mem_exposed (hl : Token.parens.depth? 0 l = some 0) :
    .op o ∈ Token.parens.exposed 0 (l ++ .op o :: r) := by
  rw [Brackets.exposed_append_of_depth? hl, Brackets.exposed_cons_plain (Token.plain_op o)]
  simp

/-! From trees to derivations -/

theorem IsSum.isProduct (h : IsSum ts e)
    (htight : ∀ o, .op o ∈ Token.parens.exposed 0 ts → 1 ≤ o.precedence) : IsProduct ts e := by
  cases h with
  | ofProduct h => exact h
  | binary ho hl _ =>
    have := htight _ (op_mem_exposed hl.phrase.balanced)
    rw [precedence_sum ho] at this
    omega
  | signed ho _ =>
    have := htight _ (op_mem_exposed (l := []) rfl)
    rw [precedence_sum ho] at this
    omega

theorem IsProduct.isPower (h : IsProduct ts e)
    (htight : ∀ o, .op o ∈ Token.parens.exposed 0 ts → 2 ≤ o.precedence) : IsPower ts e := by
  cases h with
  | ofPower h => exact h
  | binary ho hl _ =>
    have := htight _ (op_mem_exposed hl.phrase.balanced)
    rw [precedence_product ho] at this
    omega

theorem IsPower.isAtom (h : IsPower ts e)
    (htight : ∀ o, .op o ∈ Token.parens.exposed 0 ts → 3 ≤ o.precedence) : IsAtom ts e := by
  cases h with
  | ofAtom h => exact h
  | binary hl _ =>
    have hmem : 3 ≤ Operator.pow.precedence := htight _ (op_mem_exposed hl.phrase.balanced)
    exact absurd hmem (by decide)

theorem IsSum.ofOperation (hl : IsSum l lhs) (hr : IsSum r rhs)
    (hleft : ∀ o', .op o' ∈ Token.parens.exposed 0 l → o.precedence ≤ o'.precedence)
    (hright : ∀ o', .op o' ∈ Token.parens.exposed 0 r → o.precedence < o'.precedence) :
    IsSum (l ++ .op o :: r) (.binary o lhs rhs) := by
  cases o with
  | add => exact .binary (.inl rfl) hl (hr.isProduct hright)
  | sub => exact .binary (.inr rfl) hl (hr.isProduct hright)
  | mul =>
    have hr' := hr.isProduct fun o ho => Nat.le_of_lt (hright o ho)
    exact .ofProduct (.binary (.inl rfl) (hl.isProduct hleft) (hr'.isPower hright))
  | div =>
    have hr' := hr.isProduct fun o ho => Nat.le_of_lt (hright o ho)
    exact .ofProduct (.binary (.inr rfl) (hl.isProduct hleft) (hr'.isPower hright))
  | pow =>
    have hl' := hl.isProduct fun o ho => Nat.le_of_lt (hleft o ho)
    have hr' := hr.isProduct fun o ho => Nat.le_of_lt (Nat.le_of_lt (hright o ho))
    have hr'' := hr'.isPower fun o ho => Nat.le_of_lt (hright o ho)
    exact .ofProduct (.ofPower (.binary (hl'.isPower hleft) (hr''.isAtom hright)))

theorem IsSum.ofSign (hr : IsSum r rhs) (ho : o.isSign = true)
    (hright : ∀ o', .op o' ∈ Token.parens.exposed 0 r → o.precedence < o'.precedence) :
    IsSum (.op o :: r) (.binary o (.number .zero) rhs) := by
  have hsum : o = .add ∨ o = .sub := by cases o <;> simp_all [Operator.isSign]
  refine .signed hsum (hr.isProduct ?_)
  rwa [precedence_sum hsum] at hright

theorem matches_comma_iff (t : Token) : (t matches .comma) = true ↔ t = .comma := by
  cases t <;> simp

theorem plain_of_comma (t : Token) (ht : (t matches .comma) = true) : Token.parens.Plain t := by
  rw [(matches_comma_iff t).1 ht]
  exact ⟨rfl, rfl⟩

theorem isArguments_of_split (h : Token.parens.depth? 0 inner = some 0)
    (hes : List.Forall₂ IsSum (Token.parens.split (· matches .comma) inner) es) :
    IsArguments inner es := by
  induction hn : inner.length using Nat.strong_induction_on generalizing inner es with
  | h n ih =>
    rcases Brackets.split_cases plain_of_comma h with
      ⟨-, heq⟩ | ⟨l, s, r, rfl, hs, -, hr, -, heq⟩
    · rw [heq] at hes
      cases hes with
      | cons he hrest =>
        cases hrest
        exact .one he
    · rw [heq] at hes
      cases hes with
      | cons he hrest =>
        have hargs : IsArguments r _ := ih r.length (by simp [← hn]; omega) hr hrest rfl
        obtain rfl : s = .comma := (matches_comma_iff s).1 hs
        cases hargs with
        | none =>
          -- even an empty run has a part, so there is a tree for it
          cases hrest
        | one hone => exact .more he (.one hone)
        | more hfirst hmore => exact .more he (.more hfirst hmore)

theorem isArguments_of_arguments (h : Token.parens.depth? 0 inner = some 0)
    (hes : List.Forall₂ IsSum (Token.arguments inner) es) : IsArguments inner es := by
  unfold Token.arguments at hes
  split at hes
  · rename_i hempty
    cases hes
    rw [List.isEmpty_iff.1 hempty]
    exact .none
  · exact isArguments_of_split h hes

theorem balanced_of_mem_arguments {part : List Token} (h : Token.parens.depth? 0 inner = some 0)
    (hmem : part ∈ Token.arguments inner) : Token.parens.depth? 0 part = some 0 := by
  unfold Token.arguments at hmem
  split at hmem
  · cases hmem
  · exact Brackets.depth?_of_mem_split plain_of_comma h hmem

theorem isArguments_of_mapM (h : Token.parens.depth? 0 inner = some 0)
    (hparts : ∀ part ∈ Token.arguments inner, Token.parens.depth? 0 part = some 0 →
      ∀ e, Expr.ofRange diagnostics part = .ok e → IsSum part e)
    (hes : (Token.arguments inner).mapM (Expr.ofRange diagnostics) = .ok es) :
    IsArguments inner es := by
  refine isArguments_of_arguments h ?_
  have hmem : ∀ part ∈ Token.arguments inner, part ∈ Token.arguments inner := fun _ h => h
  have hall := (List.forall₂_and_left _ _).2 ⟨hmem, mapM_eq_ok_iff.1 hes⟩
  exact hall.imp fun part e hpart =>
    hparts part hpart.1 (balanced_of_mem_arguments h hpart.1) e hpart.2

theorem isAtom_of_ofToken? {t : Token} (h : Expr.ofToken? t = some e) : IsAtom [t] e := by
  cases t <;> simp only [Expr.ofToken?, Option.some.injEq, reduceCtorEq] at h <;> subst h
  · exact .real _
  · exact .constant _
  · exact .ident _

theorem IsAtom.isSum (h : IsAtom ts e) : IsSum ts e := .ofProduct (.ofPower (.ofAtom h))

theorem isSum_of_ofRange (h : Token.parens.depth? 0 ts = some 0)
    (he : Expr.ofRange diagnostics ts = .ok e) : IsSum ts e := by
  induction hn : ts.length using Nat.strong_induction_on generalizing ts e with
  | h n ih =>
    subst hn
    -- the parts of a shape are shorter than the run that it is the shape of
    have hpart (part : List Token) (hmem : part ∈ (Shape.ofTokens ts).parts)
        (hbal : Token.parens.depth? 0 part = some 0) (e : Expr)
        (he : Expr.ofRange diagnostics part = .ok e) : IsSum part e :=
      ih part.length (Shape.length_lt_of_mem_parts hmem) hbal he rfl
    have hdesc := Shape.describes_ofTokens ts
    rw [Expr.ofRange_eq] at he
    cases hshape : Shape.ofTokens ts with
    | empty => simp [hshape] at he
    | juxtaposition => simp [hshape] at he
    | group inner =>
      rw [hshape] at he hdesc hpart
      obtain ⟨rfl, hbal⟩ := hdesc
      exact (IsAtom.group (hpart inner (List.mem_singleton_self inner) hbal e he)).isSum
    | leaf t =>
      rw [hshape] at he hdesc
      obtain rfl : ts = [t] := hdesc
      dsimp only at he
      split at he
      · rename_i htoken
        cases he
        exact (isAtom_of_ofToken? htoken).isSum
      · cases he
    | call name args =>
      rw [hshape] at he hdesc hpart
      obtain ⟨inner, hts, hbal, rfl⟩ := hdesc
      obtain ⟨es, hes, heq⟩ := bind_eq_ok_iff.1 he
      cases heq
      exact hts ▸ (IsAtom.call name (isArguments_of_mapM hbal hpart hes)).isSum
    | builtin f args =>
      rw [hshape] at he hdesc hpart
      obtain ⟨inner, hts, hbal, rfl⟩ := hdesc
      obtain ⟨es, hes, heq⟩ := bind_eq_ok_iff.1 he
      cases heq
      exact hts ▸ (IsAtom.builtin f (isArguments_of_mapM hbal hpart hes)).isSum
    | operation l o r =>
      rw [hshape] at he hdesc hpart
      obtain ⟨hts, hl, hr, hleft, hright⟩ := (Token.splitAtOperator?_eq_some_iff h).1 hdesc
      obtain ⟨rhs, hrhs, he⟩ := bind_eq_ok_iff.1 he
      have hsumr := hpart r (by simp [Shape.parts]) hr rhs hrhs
      split at he
      · rename_i hempty
        split at he
        · rename_i hsign
          cases he
          rw [hts, List.isEmpty_iff.1 hempty]
          exact hsumr.ofSign hsign hright
        · cases he
      · obtain ⟨lhs, hlhs, he⟩ := bind_eq_ok_iff.1 he
        cases he
        have hsuml := hpart l (by simp [Shape.parts]) hl lhs hlhs
        exact hts ▸ hsuml.ofOperation hsumr hleft hright

/-! From derivations to trees -/

theorem op_tight {tier : Nat} (h : Phrase tier ts) (ho : .op o ∈ Token.parens.exposed 0 ts) :
    tier ≤ o.precedence := h.tight _ ho

theorem split_of_phrases (hl : Token.parens.depth? 0 l = some 0)
    (hleft : ∀ o', .op o' ∈ Token.parens.exposed 0 l → o.precedence ≤ o'.precedence)
    (hr : Phrase (o.precedence + 1) r) :
    Shape.ofTokens (l ++ .op o :: r) = .operation l o r := by
  have hbal : Token.parens.depth? 0 (l ++ .op o :: r) = some 0 := by
    rw [Brackets.depth?_append_of_eq hl, Brackets.depth?_cons_plain (Token.plain_op o)]
    exact hr.balanced
  have hlen : 2 ≤ (l ++ .op o :: r).length := by
    have := List.length_pos_iff.2 hr.ne_nil
    simp only [List.length_append, List.length_cons]
    omega
  have hsplit : Token.splitAtOperator? (l ++ .op o :: r) = some (l, o, r) :=
    (Token.splitAtOperator?_eq_some_iff hbal).2
      ⟨rfl, hl, hr.balanced, hleft, fun o' ho' => op_tight hr ho'⟩
  rw [Shape.ofTokens_of_exposed_op hlen (op_mem_exposed hl), Shape.ofOperation, hsplit]

theorem ofRange_binary {tier : Nat} (ho : o.precedence = tier) (hl : Phrase tier l)
    (hr : Phrase (tier + 1) r)
    (hlhs : Expr.ofRange diagnostics l = .ok lhs) (hrhs : Expr.ofRange diagnostics r = .ok rhs) :
    Expr.ofRange diagnostics (l ++ .op o :: r) = .ok (.binary o lhs rhs) := by
  subst ho
  rw [Expr.ofRange_eq, split_of_phrases hl.balanced (fun o' ho' => op_tight hl ho') hr]
  simp only [hrhs, hlhs, List.isEmpty_eq_false_iff.2 hl.ne_nil]
  rfl

theorem ofRange_signed (ho : o = .add ∨ o = .sub) (hr : Phrase 1 r)
    (hrhs : Expr.ofRange diagnostics r = .ok rhs) :
    Expr.ofRange diagnostics (.op o :: r) = .ok (.binary o (.number .zero) rhs) := by
  have hshape : Shape.ofTokens ([] ++ .op o :: r) = .operation [] o r := by
    refine split_of_phrases rfl (by simp [Brackets.exposed]) ?_
    rwa [precedence_sum ho]
  have hsign : o.isSign = true := by rcases ho with rfl | rfl <;> rfl
  rw [List.nil_append] at hshape
  rw [Expr.ofRange_eq, hshape]
  simp only [hrhs, List.isEmpty_nil, if_true, hsign]
  rfl

theorem no_exposed_comma {tier : Nat} (h : Phrase tier ts) :
    ∀ t ∈ Token.parens.exposed 0 ts, (t matches .comma) = false :=
  (Brackets.forall_exposed_eq_false_iff matches_comma_iff).2 fun hcomma => h.tight _ hcomma

theorem IsArguments.ne_nil (h : IsArguments ts (e :: es)) : ts ≠ [] := by
  cases h with
  | one h => exact h.phrase.ne_nil
  | more _ _ => simp

theorem arguments_of_ne_nil (h : inner ≠ []) :
    Token.arguments inner = Token.parens.split (· matches .comma) inner := by
  rw [Token.arguments, List.isEmpty_eq_false_iff.2 h]
  exact if_neg Bool.false_ne_true

theorem arguments_one (h : Phrase 0 ts) : Token.arguments ts = [ts] := by
  rw [arguments_of_ne_nil h.ne_nil]
  exact Brackets.splitFrom_of_exposed (no_exposed_comma h)

theorem arguments_more {rest : List Token} (h : Phrase 0 ts) (hrest : rest ≠ []) :
    Token.arguments (ts ++ .comma :: rest) = ts :: Token.arguments rest := by
  rw [arguments_of_ne_nil (by simp), arguments_of_ne_nil hrest]
  exact Brackets.splitFrom_append rfl (no_exposed_comma h)
    (Brackets.foldl_step_of_depth? h.balanced)

theorem enclosed?_group (h : Token.parens.depth? 0 inner = some 0) :
    Token.enclosed? (.lparen :: (inner ++ [.rparen])) = some inner :=
  Token.enclosed?_eq_some_iff.2 ⟨rfl, h⟩

theorem ofTokens_call (name : String) (h : Token.parens.depth? 0 inner = some 0) :
    Shape.ofTokens (.ident name :: .lparen :: (inner ++ [.rparen])) =
      .call name (Token.arguments inner) := by
  have hwhole : Token.enclosed? (.ident name :: .lparen :: (inner ++ [.rparen])) = none := rfl
  simp only [Shape.ofTokens, hwhole, enclosed?_group h]

theorem ofTokens_builtin (f : Builtin) (h : Token.parens.depth? 0 inner = some 0) :
    Shape.ofTokens (.builtin f :: .lparen :: (inner ++ [.rparen])) =
      .builtin f (Token.arguments inner) := by
  have hwhole : Token.enclosed? (.builtin f :: .lparen :: (inner ++ [.rparen])) = none := rfl
  simp only [Shape.ofTokens, hwhole, enclosed?_group h]

mutual

theorem IsSum.ofRange {ts : List Token} {e : Expr} :
    IsSum ts e → Expr.ofRange diagnostics ts = .ok e
  | .ofProduct h => h.ofRange
  | .binary ho hl hr =>
    ofRange_binary (precedence_sum ho) hl.phrase hr.phrase hl.ofRange hr.ofRange
  | .signed ho hr => ofRange_signed ho hr.phrase hr.ofRange

theorem IsProduct.ofRange {ts : List Token} {e : Expr} :
    IsProduct ts e → Expr.ofRange diagnostics ts = .ok e
  | .ofPower h => h.ofRange
  | .binary ho hl hr =>
    ofRange_binary (precedence_product ho) hl.phrase hr.phrase hl.ofRange hr.ofRange

theorem IsPower.ofRange {ts : List Token} {e : Expr} :
    IsPower ts e → Expr.ofRange diagnostics ts = .ok e
  | .ofAtom h => h.ofRange
  | .binary hl hr => ofRange_binary rfl hl.phrase hr.phrase hl.ofRange hr.ofRange

theorem IsAtom.ofRange {ts : List Token} {e : Expr} :
    IsAtom ts e → Expr.ofRange diagnostics ts = .ok e
  | .real _ => by rw [Expr.ofRange_eq]; rfl
  | .constant _ => by rw [Expr.ofRange_eq]; rfl
  | .ident _ => by rw [Expr.ofRange_eq]; rfl
  | .call name h => by
    rw [Expr.ofRange_eq, ofTokens_call name h.balanced]
    exact bind_eq_ok_iff.2 ⟨_, h.mapM_ofRange, rfl⟩
  | .builtin f h => by
    rw [Expr.ofRange_eq, ofTokens_builtin f h.balanced]
    exact bind_eq_ok_iff.2 ⟨_, h.mapM_ofRange, rfl⟩
  | .group h => by
    have hgroup := enclosed?_group h.phrase.balanced
    rw [Expr.ofRange_eq]
    simp only [Shape.ofTokens, hgroup]
    exact h.ofRange

theorem IsArguments.mapM_ofRange {ts : List Token} {es : List Expr} :
    IsArguments ts es → (Token.arguments ts).mapM (Expr.ofRange diagnostics) = .ok es
  | .none => rfl
  | .one h => by
    rw [arguments_one h.phrase]
    exact mapM_eq_ok_iff.2 (.cons h.ofRange .nil)
  | .more h hrest => by
    rw [arguments_more h.phrase hrest.ne_nil]
    exact mapM_eq_ok_iff.2 (.cons h.ofRange (mapM_eq_ok_iff.1 hrest.mapM_ofRange))

end

theorem ofTokens_eq_ok_iff : Expr.ofTokens diagnostics ts = .ok e ↔ IsSum ts e := by
  unfold Expr.ofTokens
  constructor
  · intro h
    split at h
    · rename_i hbal
      exact isSum_of_ofRange (Brackets.balanced_eq_true_iff.1 hbal) h
    · cases h
  · intro h
    rw [if_pos (Brackets.balanced_eq_true_iff.2 h.phrase.balanced)]
    exact h.ofRange

end ComplexCalc.Grammar
