import ComplexCalc.Nesting
import ComplexCalc.Token.Basic

/-! How a run of tokens is made up at its outermost level: what stands outside all parentheses
decides the shape, and the parts of a shape are shorter runs. -/

namespace ComplexCalc

namespace Token

def parens : Brackets Token where
  opens t := t matches .lparen
  closes t := t matches .rparen

def operatorOfTier? (tier : Nat) : Token → Option Operator
  | op o => if o.precedence = tier then some o else none
  | _ => none

/-- The inside of a run that is one parenthesized group, as `(a)` but not `(a) * (b)`. -/
def enclosed? : List Token → Option (List Token)
  | .lparen :: rest =>
    if rest.getLast? = some .rparen ∧ parens.balanced rest.dropLast then some rest.dropLast
    else none
  | _ => none

def arguments (inner : List Token) : List (List Token) :=
  if inner.isEmpty then [] else parens.split (· matches .comma) inner

/-- The last operator of the loosest tier outside all parentheses, with both its sides. Splitting at
the last one makes every operator, `^` included, group from the left. -/
def splitAtOperator? (range : List Token) : Option (List Token × Operator × List Token) :=
  [0, 1, 2].findSome? fun tier =>
    (parens.flip.find (operatorOfTier? tier) range.reverse).map fun r =>
      (r.2.2.reverse, r.2.1, r.1.reverse)

end Token

inductive Shape
  | empty
  | group (inner : List Token)
  | leaf (t : Token)
  | call (name : String) (args : List (List Token))
  | builtin (f : Builtin) (args : List (List Token))
  | operation (lhs : List Token) (o : Operator) (rhs : List Token)
  | juxtaposition

namespace Shape

def ofOperation (range : List Token) : Shape :=
  match Token.splitAtOperator? range with
  | some (lhs, o, rhs) => operation lhs o rhs
  | none => juxtaposition

def ofTokens (range : List Token) : Shape :=
  match Token.enclosed? range with
  | some inner => group inner
  | none =>
    match range with
    | [] => empty
    | [t] => leaf t
    | .ident name :: rest =>
      match Token.enclosed? rest with
      | some inner => call name (Token.arguments inner)
      | none => ofOperation range
    | .builtin f :: rest =>
      match Token.enclosed? rest with
      | some inner => builtin f (Token.arguments inner)
      | none => ofOperation range
    | _ => ofOperation range

def parts : Shape → List (List Token)
  | group inner => [inner]
  | call _ args | builtin _ args => args
  | operation lhs _ rhs => [lhs, rhs]
  | empty | leaf _ | juxtaposition => []

theorem length_lt_of_enclosed? {range inner : List Token}
    (h : Token.enclosed? range = some inner) : inner.length < range.length := by
  unfold Token.enclosed? at h
  split at h
  · split at h <;> cases h
    simp only [List.length_dropLast, List.length_cons]
    omega
  · cases h

theorem length_le_of_mem_arguments {inner part : List Token}
    (h : part ∈ Token.arguments inner) : part.length ≤ inner.length := by
  unfold Token.arguments at h
  split at h
  · cases h
  · exact Token.parens.length_le_of_mem_splitFrom h

theorem length_of_splitAtOperator? {range lhs rhs : List Token} {o : Operator}
    (h : Token.splitAtOperator? range = some (lhs, o, rhs)) :
    lhs.length + rhs.length + 1 = range.length := by
  obtain ⟨tier, -, ht⟩ := List.exists_of_findSome?_eq_some h
  obtain ⟨⟨l, y, r⟩, hfind, heq⟩ := Option.map_eq_some_iff.1 ht
  cases heq
  have := Brackets.length_of_findFrom _ hfind
  simp only [List.length_reverse] at *
  omega

theorem length_lt_of_mem_ofOperation {range part : List Token}
    (h : part ∈ (ofOperation range).parts) : part.length < range.length := by
  unfold ofOperation at h
  split at h
  · rename_i hsplit
    have := length_of_splitAtOperator? hsplit
    simp only [parts, List.mem_cons, List.not_mem_nil, or_false] at h
    rcases h with rfl | rfl <;> omega
  · cases h

theorem length_lt_of_mem_parts {range part : List Token} (h : part ∈ (ofTokens range).parts) :
    part.length < range.length := by
  unfold ofTokens at h
  split at h
  · rename_i henclosed
    have := length_lt_of_enclosed? henclosed
    simp_all [parts]
  · split at h
    · cases h
    · cases h
    · split at h
      · rename_i hinner
        have := length_lt_of_enclosed? hinner
        have := length_le_of_mem_arguments h
        simp only [List.length_cons]
        omega
      · exact length_lt_of_mem_ofOperation h
    · split at h
      · rename_i hinner
        have := length_lt_of_enclosed? hinner
        have := length_le_of_mem_arguments h
        simp only [List.length_cons]
        omega
      · exact length_lt_of_mem_ofOperation h
    · exact length_lt_of_mem_ofOperation h

end Shape

end ComplexCalc
