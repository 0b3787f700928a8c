import ComplexCalc.Expr.OfTokens
import ComplexCalc.Proofs.Nesting.Outermost

/-! The grammar of expressions, each phrase with its tree:

    sum     ::= product | sum (+|-) product | (+|-) product
    product ::= power | product (*|/) power
    power   ::= atom | power ^ atom
    atom    ::= real | constant | ident | ident ( args ) | builtin ( args ) | ( sum )
    args    ::= empty | sum {, sum}

Every phrase is balanced, and what it exposes binds as tightly as its nonterminal says. -/

namespace ComplexCalc.Grammar

mutual

inductive IsSum : List Token → Expr → Prop
  | ofProduct {ts : List Token} {e : Expr} : IsProduct ts e → IsSum ts e
  | binary {l r : List Token} {o : Operator} {lhs rhs : Expr} (ho : o = .add ∨ o = .sub) :
    IsSum l lhs → IsProduct r rhs → IsSum (l ++ .op o :: r) (.binary o lhs rhs)
  | signed {r : List Token} {o : Operator} {rhs : Expr} (ho : o = .add ∨ o = .sub) :
    IsProduct r rhs → IsSum (.op o :: r) (.binary o (.number .zero) rhs)

inductive IsProduct : List Token → Expr → Prop
  | ofPower {ts : List Token} {e : Expr} : IsPower ts e → IsProduct ts e
  | binary {l r : List Token} {o : Operator} {lhs rhs : Expr} (ho : o = .mul ∨ o = .div) :
    IsProduct l lhs → IsPower r rhs → IsProduct (l ++ .op o :: r) (.binary o lhs rhs)

inductive IsPower : List Token → Expr → Prop
  | ofAtom {ts : List Token} {e : Expr} : IsAtom ts e → IsPower ts e
  | binary {l r : List Token} {lhs rhs : Expr} :
    IsPower l lhs → IsAtom r rhs → IsPower (l ++ .op .pow :: r) (.binary .pow lhs rhs)

inductive IsAtom : List Token → Expr → Prop
  | real (x : Float) : IsAtom [.real x] (.number (.real x))
  | constant (c : Constant) : IsAtom [.constant c] (.constant c)
  | ident (name : String) : IsAtom [.ident name] (.call name [])
  | call (name : String) {inner : List Token} {args : List Expr} : IsArguments inner args →
    IsAtom (.ident name :: .lparen :: (inner ++ [.rparen])) (.call name args)
  | builtin (f : Builtin) {inner : List Token} {args : List Expr} : IsArguments inner args →
    IsAtom (.builtin f :: .lparen :: (inner ++ [.rparen])) (.builtin f args)
  | group {inner : List Token} {e : Expr} : IsSum inner e →
    IsAtom (.lparen :: (inner ++ [.rparen])) e

inductive IsArguments : List Token → List Expr → Prop
  | none : IsArguments [] []
  | one {ts : List Token} {e : Expr} : IsSum ts e → IsArguments ts [e]
  | more {ts rest : List Token} {e e' : Expr} {es : List Expr} : IsSum ts e →
    IsArguments rest (e' :: es) → IsArguments (ts ++ .comma :: rest) (e :: e' :: es)

end

end Grammar

namespace Token

theorem parens_proper : parens.Proper := by
  intro t ht
  cases t <;> simp_all [parens]

theorem plain_op (o : Operator) : parens.Plain (.op o) := ⟨rfl, rfl⟩

/-- Whether the token may stand outside all parentheses of a phrase that has no operators looser
than the tier there. -/
def Tight (tier : Nat) : Token → Prop
  | op o => tier ≤ o.precedence
  | comma | equals => False
  | _ => True

theorem Tight.mono {tier tier' : Nat} {t : Token} (h : t.Tight tier) (hle : tier' ≤ tier) :
    t.Tight tier' := by
  cases t with
  | op o => exact Nat.le_trans hle h
  | _ => exact h

end Token

namespace Grammar

structure Phrase (tier : Nat) (ts : List Token) : Prop where
  ne_nil : ts ≠ []
  balanced : Token.parens.depth? 0 ts = some 0
  tight : ∀ t ∈ Token.parens.exposed 0 ts, t.Tight tier

namespace Phrase
variable {tier : Nat} {ts l r inner : List Token}

theorem mono {tier' : Nat} (h : Phrase tier ts) (hle : tier' ≤ tier) : Phrase tier' ts :=
  ⟨h.ne_nil, h.balanced, fun t ht => (h.tight t ht).mono hle⟩

theorem signed {o : Operator} (ho : tier ≤ o.precedence) (hr : Phrase (tier + 1) r) :
    Phrase tier (.op o :: r) where
  ne_nil := List.cons_ne_nil _ _
  balanced := by
    rw [Brackets.depth?_cons_plain (Token.plain_op o)]
    exact hr.balanced
  tight := by
    intro t ht
    rw [Brackets.exposed_cons_plain (Token.plain_op o)] at ht
    rcases List.mem_cons.1 ht with rfl | ht
    · exact ho
    · exact (hr.tight t ht).mono (Nat.le_succ tier)

theorem binary {o : Operator} (ho : tier ≤ o.precedence) (hl : Phrase tier l)
    (hr : Phrase (tier + 1) r) : Phrase tier (l ++ .op o :: r) where
  ne_nil := by simp
  balanced := by
    rw [Brackets.depth?_append_of_eq hl.balanced]
    exact (hr.signed ho).balanced
  tight := by
    intro t ht
    rw [Brackets.exposed_append_of_depth? hl.balanced] at ht
    rcases List.mem_append.1 ht with ht | ht
    · exact hl.tight t ht
    · exact (hr.signed ho).tight t ht

theorem group (h : Token.parens.depth? 0 inner = some 0) :
    Phrase tier (.lparen :: (inner ++ [.rparen])) where
  ne_nil := List.cons_ne_nil _ _
  balanced := Brackets.depth?_group rfl rfl rfl rfl h
  tight := by
    intro t ht
    rw [Brackets.exposed_group rfl h, List.mem_singleton] at ht
    subst ht
    trivial

theorem cons {t : Token} (ht : t.Tight tier) (hp : Token.parens.Plain t)
    (h : Token.parens.depth? 0 ts = some 0) (hts : ∀ u ∈ Token.parens.exposed 0 ts, u.Tight tier) :
    Phrase tier (t :: ts) where
  ne_nil := List.cons_ne_nil _ _
  balanced := by rwa [Brackets.depth?_cons_plain hp]
  tight := by
    intro u hu
    rw [Brackets.exposed_cons_plain hp] at hu
    rcases List.mem_cons.1 hu with rfl | hu
    · exact ht
    · exact hts u hu

theorem token {t : Token} (ht : t.Tight tier) (hp : Token.parens.Plain t) : Phrase tier [t] :=
  cons ht hp rfl (by simp [Brackets.exposed])

end Phrase

theorem precedence_sum {o : Operator} (ho : o = .add ∨ o = .sub) : o.precedence = 0 := by
  rcases ho with rfl | rfl <;> rfl

theorem precedence_product {o : Operator} (ho : o = .mul ∨ o = .div) : o.precedence = 1 := by
  rcases ho with rfl | rfl <;> rfl

mutual

theorem IsSum.phrase {ts : List Token} {e : Expr} : IsSum ts e → Phrase 0 ts
  | .ofProduct h => h.phrase.mono (Nat.zero_le 1)
  | .binary _ hl hr => hl.phrase.binary (Nat.zero_le _) hr.phrase
  | .signed _ hr => hr.phrase.signed (Nat.zero_le _)

theorem IsProduct.phrase {ts : List Token} {e : Expr} : IsProduct ts e → Phrase 1 ts
  | .ofPower h => h.phrase.mono (Nat.le_succ 1)
  | .binary ho hl hr => hl.phrase.binary (Nat.le_of_eq (precedence_product ho).symm) hr.phrase

theorem IsPower.phrase {ts : List Token} {e : Expr} : IsPower ts e → Phrase 2 ts
  | .ofAtom h => h.phrase.mono (Nat.le_succ 2)
  | .binary hl hr => hl.phrase.binary Nat.le.refl hr.phrase

theorem IsAtom.phrase {ts : List Token} {e : Expr} : IsAtom ts e → Phrase 3 ts
  | .real _ => .token trivial ⟨rfl, rfl⟩
  | .constant _ => .token trivial ⟨rfl, rfl⟩
  | .ident _ => .token trivial ⟨rfl, rfl⟩
  | .call _ h =>
    have hgroup : Phrase 3 _ := .group h.balanced
    .cons trivial ⟨rfl, rfl⟩ hgroup.balanced hgroup.tight
  | .builtin _ h =>
    have hgroup : Phrase 3 _ := .group h.balanced
    .cons trivial ⟨rfl, rfl⟩ hgroup.balanced hgroup.tight
  | .group h => .group h.phrase.balanced

theorem IsArguments.balanced {ts : List Token} {es : List Expr} :
    IsArguments ts es → Token.parens.depth? 0 ts = some 0
  | .none => rfl
  | .one h => h.phrase.balanced
  | .more h hrest => by
    rw [Brackets.depth?_append_of_eq h.phrase.balanced, Brackets.depth?_cons_plain ⟨rfl, rfl⟩]
    exact hrest.balanced

end

end ComplexCalc.Grammar
