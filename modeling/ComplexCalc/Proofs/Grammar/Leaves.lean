import ComplexCalc.Proofs.Expr.Nodes
import ComplexCalc.Proofs.Grammar.Basic
import ComplexCalc.Proofs.Lexical.Tokens

/-! The nodes of the trees that texts have. Every node is made from one of the tokens, or is the
zero before a sign, so what holds of the tokens of a text holds of the nodes: their numbers are real
and have no sign, and what they call are names. -/

namespace ComplexCalc

namespace Node

def token : Node → Token
  | number z => .real z.re
  | constant c => .constant c
  | call name _ => .ident name
  | builtin f _ => .builtin f
  | binary o => .op o

def IsReal : Node → Prop
  | number z => z.im = 0
  | _ => True

/-- Whether the node is made from a token with the property. -/
structure MadeOf (P : Token → Prop) (n : Node) : Prop where
  isReal : n.IsReal
  token : P n.token

def Parsed : Node → Prop
  | .number z => z.im = 0 ∧ Double.Unsigned z.re
  | .call name _ => Token.IsName name
  | .constant _ | .builtin _ _ | .binary _ => True

theorem MadeOf.parsed {n : Node} (h : n.MadeOf Token.Lexed) : n.Parsed := by
  cases n with
  | number z => exact ⟨h.isReal, h.token⟩
  | call name arity => exact h.token
  | _ => trivial

end Node

namespace Expr

def Parsed (e : Expr) : Prop := ∀ n ∈ e.nodes, n.Parsed

def MadeOf (P : Token → Prop) (e : Expr) : Prop := ∀ n ∈ e.nodes, n.MadeOf P

def AllMadeOf (P : Token → Prop) (es : List Expr) : Prop := ∀ n ∈ nodesAll es, n.MadeOf P

variable {P : Token → Prop} {x : Float} {c : Constant} {name : String} {f : Builtin} {o : Operator}
  {e lhs rhs : Expr} {es : List Expr}

theorem madeOf_real (hx : P (.real x)) : MadeOf P (.number (.real x)) :=
  List.forall_mem_singleton.2 ⟨rfl, hx⟩

theorem madeOf_constant (hc : P (.constant c)) : MadeOf P (.constant c) :=
  List.forall_mem_singleton.2 ⟨trivial, hc⟩

theorem MadeOf.binary (ho : P (.op o)) (hl : lhs.MadeOf P) (hr : rhs.MadeOf P) :
    MadeOf P (.binary o lhs rhs) :=
  List.forall_mem_cons.2 ⟨⟨trivial, ho⟩, List.forall_mem_append.2 ⟨hl, hr⟩⟩

theorem AllMadeOf.call (hname : P (.ident name)) (h : AllMadeOf P es) : MadeOf P (.call name es) :=
  List.forall_mem_cons.2 ⟨⟨trivial, hname⟩, h⟩

theorem AllMadeOf.builtin (hf : P (.builtin f)) (h : AllMadeOf P es) : MadeOf P (.builtin f es) :=
  List.forall_mem_cons.2 ⟨⟨trivial, hf⟩, h⟩

theorem allMadeOf_nil : AllMadeOf P [] := nofun

theorem allMadeOf_cons : AllMadeOf P (e :: es) ↔ e.MadeOf P ∧ AllMadeOf P es :=
  List.forall_mem_append

theorem MadeOf.singleton (he : e.MadeOf P) : AllMadeOf P [e] := allMadeOf_cons.2 ⟨he, allMadeOf_nil⟩

end Expr

namespace Grammar

def AllLexed (ts : List Token) : Prop := ∀ t ∈ ts, t.Lexed

section
variable {P : Token → Prop} {t : Token} {l r inner : List Token}

theorem forall_mem_operation :
    (∀ u ∈ l ++ t :: r, P u) ↔ (∀ u ∈ l, P u) ∧ P t ∧ ∀ u ∈ r, P u := by
  rw [List.forall_mem_append, List.forall_mem_cons]

theorem forall_mem_group (h : ∀ u ∈ .lparen :: (inner ++ [.rparen]), P u) : ∀ u ∈ inner, P u :=
  (forall_mem_operation.1 (List.forall_mem_cons.1 h).2).1

mutual

theorem IsSum.madeOf (hzero : P (.real 0)) {ts : List Token} {e : Expr} :
    IsSum ts e → (∀ t ∈ ts, P t) → e.MadeOf P
  | .ofProduct h, hts => h.madeOf hzero hts
  | .binary _ hl hr, hts =>
    have ⟨hleft, ho, hright⟩ := forall_mem_operation.1 hts
    (hl.madeOf hzero hleft).binary ho (hr.madeOf hzero hright)
  | .signed _ hr, hts =>
    have ⟨ho, hright⟩ := List.forall_mem_cons.1 hts
    (Expr.madeOf_real hzero).binary ho (hr.madeOf hzero hright)

theorem IsProduct.madeOf (hzero : P (.real 0)) {ts : List Token} {e : Expr} :
    IsProduct ts e → (∀ t ∈ ts, P t) → e.MadeOf P
  | .ofPower h, hts => h.madeOf hzero hts
  | .binary _ hl hr, hts =>
    have ⟨hleft, ho, hright⟩ := forall_mem_operation.1 hts
    (hl.madeOf hzero hleft).binary ho (hr.madeOf hzero hright)

theorem IsPower.madeOf (hzero : P (.real 0)) {ts : List Token} {e : Expr} :
    IsPower ts e → (∀ t ∈ ts, P t) → e.MadeOf P
  | .ofAtom h, hts => h.madeOf hzero hts
  | .binary hl hr, hts =>
    have ⟨hleft, ho, hright⟩ := forall_mem_operation.1 hts
    (hl.madeOf hzero hleft).binary ho (hr.madeOf hzero hright)

theorem IsAtom.madeOf (hzero : P (.real 0)) {ts : List Token} {e : Expr} :
    IsAtom ts e → (∀ t ∈ ts, P t) → e.MadeOf P
  | .real x, hts => Expr.madeOf_real (hts (.real x) List.mem_cons_self)
  | .constant c, hts => Expr.madeOf_constant (hts (.constant c) List.mem_cons_self)
  | .ident name, hts => Expr.allMadeOf_nil.call (hts (.ident name) List.mem_cons_self)
  | .call name h, hts =>
    have ⟨hname, hgroup⟩ := List.forall_mem_cons.1 hts
    (h.madeOf hzero (forall_mem_group hgroup)).call hname
  | .builtin f h, hts =>
    have ⟨hf, hgroup⟩ := List.forall_mem_cons.1 hts
    (h.madeOf hzero (forall_mem_group hgroup)).builtin hf
  | .group h, hts => h.madeOf hzero (forall_mem_group hts)

theorem IsArguments.madeOf (hzero : P (.real 0)) {ts : List Token} {es : List Expr} :
    IsArguments ts es → (∀ t ∈ ts, P t) → Expr.AllMadeOf P es
  | .none, _ => Expr.allMadeOf_nil
  | .one h, hts => (h.madeOf hzero hts).singleton
  | .more h hrest, hts =>
    have ⟨hleft, _, hright⟩ := forall_mem_operation.1 hts
    Expr.allMadeOf_cons.2 ⟨h.madeOf hzero hleft, hrest.madeOf hzero hright⟩

end

end

theorem IsSum.parsed {ts : List Token} {e : Expr} (h : IsSum ts e) (hts : AllLexed ts) :
    e.Parsed := by
  have hzero : Token.Lexed (.real 0) :=
    show Double.Unsigned 0 from ⟨by decide +kernel, by decide +kernel⟩
  exact fun n hn => (h.madeOf hzero hts n hn).parsed

end Grammar

end ComplexCalc
