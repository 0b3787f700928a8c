import ComplexCalc.Proofs.Grammar.Basic

/-! The outermost form of a run of tokens. An exposed operator decides it; the last one of the
loosest tier is where a balanced run is split. -/

namespace ComplexCalc

namespace Token
variable {ts l r inner : List Token}

theorem enclosed?_eq_some_iff : enclosed? ts = some inner ↔
    ts = .lparen :: (inner ++ [.rparen]) ∧ parens.depth? 0 inner = some 0 := by
  constructor
  · intro h
    unfold enclosed? at h
    split at h
    · rename_i rest
      split at h
      · rename_i hrest
        cases h
        obtain ⟨ys, rfl⟩ := List.getLast?_eq_some_iff.1 hrest.1
        rw [List.dropLast_concat] at hrest ⊢
        exact ⟨rfl, Brackets.balanced_eq_true_iff.1 hrest.2⟩
      · cases h
    · cases h
  · rintro ⟨rfl, h⟩
    simp [enclosed?, Brackets.balanced_eq_true_iff.2 h]

theorem enclosed?_eq_none_of_exposed {o : Operator} (ho : .op o ∈ parens.exposed 0 ts) :
    enclosed? ts = none := by
  cases h : enclosed? ts with
  | none => rfl
  | some inner =>
    obtain ⟨rfl, hinner⟩ := enclosed?_eq_some_iff.1 h
    rw [Brackets.exposed_group rfl hinner] at ho
    simp at ho

theorem operatorOfTier?_eq_some_iff {tier : Nat} {t : Token} {o : Operator} :
    operatorOfTier? tier t = some o ↔ t = .op o ∧ o.precedence = tier := by
  cases t with
  | op o' =>
    simp only [operatorOfTier?, Option.ite_none_right_eq_some, Option.some.injEq, op.injEq]
    constructor
    · rintro ⟨rfl, rfl⟩
      exact ⟨rfl, rfl⟩
    · rintro ⟨rfl, rfl⟩
      exact ⟨rfl, rfl⟩
  | _ => simp [operatorOfTier?]

theorem operatorOfTier?_eq_none_iff {tier : Nat} {t : Token} :
    operatorOfTier? tier t = none ↔ ∀ o, t = .op o → o.precedence ≠ tier := by
  rw [Option.eq_none_iff_forall_ne_some]
  constructor
  · intro h o ho htier
    exact h o (operatorOfTier?_eq_some_iff.2 ⟨ho, htier⟩)
  · intro h o ho
    obtain ⟨ht, htier⟩ := operatorOfTier?_eq_some_iff.1 ho
    exact h o ht htier

def lastOfTier? (ts : List Token) (tier : Nat) : Option (List Token × Operator × List Token) :=
  (parens.flip.find (operatorOfTier? tier) ts.reverse).map fun r =>
    (r.2.2.reverse, r.2.1, r.1.reverse)

theorem splitAtOperator?_eq (ts : List Token) :
    splitAtOperator? ts = [0, 1, 2].findSome? (lastOfTier? ts) := rfl

theorem lastOfTier?_eq_none_iff (h : parens.depth? 0 ts = some 0) {tier : Nat} :
    lastOfTier? ts tier = none ↔ ∀ o, .op o ∈ parens.exposed 0 ts → o.precedence ≠ tier := by
  rw [lastOfTier?, Option.map_eq_none_iff, Brackets.find, Brackets.findFrom_eq_none_iff]
  constructor
  · intro hnone o ho
    have hflip := Brackets.mem_exposed_flip_reverse parens_proper h (plain_op o) ho
    exact operatorOfTier?_eq_none_iff.1 (hnone _ hflip) o rfl
  · intro hnone t ht
    refine operatorOfTier?_eq_none_iff.2 fun o ho => ?_
    subst ho
    exact hnone o (Brackets.mem_exposed_of_flip_reverse parens_proper h (plain_op o) ht)

theorem lastOfTier?_eq_some_iff (h : parens.depth? 0 ts = some 0) {tier : Nat} {o : Operator} :
    lastOfTier? ts tier = some (l, o, r) ↔ ts = l ++ .op o :: r ∧ o.precedence = tier ∧
      parens.depth? 0 l = some 0 ∧ parens.depth? 0 r = some 0 ∧
      ∀ o', .op o' ∈ parens.exposed 0 r → o'.precedence ≠ tier := by
  constructor
  · intro hlast
    obtain ⟨⟨r', o', l'⟩, hfind, heq⟩ := Option.map_eq_some_iff.1 hlast
    cases heq
    -- the search runs from the right, so both sides of what it finds are turned around
    obtain ⟨t, hts, hlevel, hop, hnone⟩ := Brackets.findFrom_eq_some_iff.1 hfind
    obtain ⟨rfl, htier⟩ := operatorOfTier?_eq_some_iff.1 hop
    have hflip := Brackets.depth?_reverse_flip parens_proper h
    rw [hts] at hflip
    obtain ⟨hr, hl⟩ := Brackets.depth?_sides (plain_op o').flip hflip hlevel
    have hr' := Brackets.depth?_reverse_flip parens_proper.flip hr
    refine ⟨?_, htier, Brackets.depth?_reverse_flip parens_proper.flip hl, hr', ?_⟩
    · rw [← List.reverse_reverse ts, hts]
      simp
    · intro o' ho'
      have hback := Brackets.mem_exposed_flip_reverse parens_proper hr' (plain_op o') ho'
      rw [List.reverse_reverse] at hback
      exact operatorOfTier?_eq_none_iff.1 (hnone _ hback) o' rfl
  · rintro ⟨rfl, htier, -, hr, hnone⟩
    have hrev := Brackets.depth?_reverse_flip parens_proper hr
    refine Option.map_eq_some_iff.2 ⟨(r.reverse, o, l.reverse), ?_, by simp⟩
    refine Brackets.findFrom_eq_some_iff.2 ⟨.op o, by simp, Brackets.foldl_step_of_depth? hrev,
      operatorOfTier?_eq_some_iff.2 ⟨rfl, htier⟩, fun t ht => ?_⟩
    refine operatorOfTier?_eq_none_iff.2 fun o' ho' => ?_
    subst ho'
    exact hnone o' (Brackets.mem_exposed_of_flip_reverse parens_proper hr (plain_op o') ht)

theorem findSome?_tiers_eq_some_iff {γ : Type} {f : Nat → Option γ} {y : γ} :
    [0, 1, 2].findSome? f = some y ↔ ∃ tier ≤ 2, f tier = some y ∧ ∀ k < tier, f k = none := by
  constructor
  · intro h
    cases h0 : f 0 with
    | some z => exact ⟨0, by omega, by simpa [h0] using h, by omega⟩
    | none =>
      cases h1 : f 1 with
      | some z =>
        refine ⟨1, by omega, by simpa [h0, h1] using h, fun k hk => ?_⟩
        rwa [Nat.lt_one_iff.1 hk]
      | none =>
        refine ⟨2, Nat.le_refl 2, by simpa [h0, h1] using h, fun k hk => ?_⟩
        obtain rfl | rfl : k = 0 ∨ k = 1 := by omega
        · exact h0
        · exact h1
  · rintro ⟨tier, htier, hy, hnone⟩
    obtain rfl | rfl | rfl : tier = 0 ∨ tier = 1 ∨ tier = 2 := by omega
    · simp [hy]
    · simp [hnone 0, hy]
    · simp [hnone 0, hnone 1, hy]

theorem precedence_le_two (o : Operator) : o.precedence ≤ 2 := by cases o <;> decide

theorem splitAtOperator?_eq_none_iff (h : parens.depth? 0 ts = some 0) :
    splitAtOperator? ts = none ↔ ∀ o, .op o ∉ parens.exposed 0 ts := by
  rw [splitAtOperator?_eq, List.findSome?_eq_none_iff]
  constructor
  · intro hnone o ho
    have htier : o.precedence ∈ [0, 1, 2] := by cases o <;> decide
    exact (lastOfTier?_eq_none_iff h).1 (hnone _ htier) o ho rfl
  · intro hnone tier _
    exact (lastOfTier?_eq_none_iff h).2 fun o ho => absurd ho (hnone o)

theorem splitAtOperator?_eq_some_iff (h : parens.depth? 0 ts = some 0) {o : Operator} :
    splitAtOperator? ts = some (l, o, r) ↔ ts = l ++ .op o :: r ∧
      parens.depth? 0 l = some 0 ∧ parens.depth? 0 r = some 0 ∧
      (∀ o', .op o' ∈ parens.exposed 0 l → o.precedence ≤ o'.precedence) ∧
      ∀ o', .op o' ∈ parens.exposed 0 r → o.precedence < o'.precedence := by
  have hexposed (hl : parens.depth? 0 l = some 0) :
      parens.exposed 0 (l ++ .op o :: r) = parens.exposed 0 l ++ .op o :: parens.exposed 0 r := by
    rw [Brackets.exposed_append_of_depth? hl, Brackets.exposed_cons_plain (plain_op o)]
  rw [splitAtOperator?_eq, findSome?_tiers_eq_some_iff]
  constructor
  · rintro ⟨tier, -, hlast, hloose⟩
    obtain ⟨rfl, rfl, hl, hr, hnone⟩ := (lastOfTier?_eq_some_iff h).1 hlast
    -- a looser exposed operator would have been found in an earlier tier
    have hle : ∀ o', .op o' ∈ parens.exposed 0 (l ++ .op o :: r) →
        o.precedence ≤ o'.precedence := by
      intro o' ho'
      by_contra hlt
      exact (lastOfTier?_eq_none_iff h).1 (hloose _ (Nat.lt_of_not_le hlt)) o' ho' rfl
    rw [hexposed hl] at hle
    refine ⟨rfl, hl, hr, fun o' ho' => hle o' (List.mem_append_left _ ho'), fun o' ho' => ?_⟩
    have hmem := hle o' (List.mem_append_right _ (List.mem_cons_of_mem _ ho'))
    exact Nat.lt_of_le_of_ne hmem (hnone o' ho').symm
  · rintro ⟨rfl, hl, hr, hleft, hright⟩
    refine ⟨o.precedence, precedence_le_two o, (lastOfTier?_eq_some_iff h).2 ⟨rfl, rfl, hl, hr,
      fun o' ho' => Nat.ne_of_gt (hright o' ho')⟩, fun k hk => (lastOfTier?_eq_none_iff h).2 ?_⟩
    intro o' ho'
    rw [hexposed hl, List.mem_append, List.mem_cons] at ho'
    rcases ho' with ho' | heq | ho'
    · exact Nat.ne_of_gt (Nat.lt_of_lt_of_le hk (hleft o' ho'))
    · cases heq
      exact Nat.ne_of_gt hk
    · exact Nat.ne_of_gt (Nat.lt_trans hk (hright o' ho'))

end Token

namespace Shape

/-- What a shape says about the run that it is the shape of. -/
def Describes (ts : List Token) : Shape → Prop
  | empty => ts = []
  | group inner => ts = .lparen :: (inner ++ [.rparen]) ∧ Token.parens.depth? 0 inner = some 0
  | leaf t => ts = [t]
  | call name args => ∃ inner, ts = .ident name :: .lparen :: (inner ++ [.rparen]) ∧
      Token.parens.depth? 0 inner = some 0 ∧ args = Token.arguments inner
  | builtin f args => ∃ inner, ts = .builtin f :: .lparen :: (inner ++ [.rparen]) ∧
      Token.parens.depth? 0 inner = some 0 ∧ args = Token.arguments inner
  | operation l o r => Token.splitAtOperator? ts = some (l, o, r)
  | juxtaposition => Token.splitAtOperator? ts = none

theorem describes_ofOperation (ts : List Token) : (ofOperation ts).Describes ts := by
  unfold ofOperation
  split <;> rename_i h <;> exact h

theorem describes_ofTokens (ts : List Token) : (ofTokens ts).Describes ts := by
  unfold ofTokens
  split
  · rename_i h
    exact Token.enclosed?_eq_some_iff.1 h
  · split
    · rfl
    · rfl
    · split
      · rename_i h
        obtain ⟨rfl, hinner⟩ := Token.enclosed?_eq_some_iff.1 h
        exact ⟨_, rfl, hinner, rfl⟩
      · exact describes_ofOperation _
    · split
      · rename_i h
        obtain ⟨rfl, hinner⟩ := Token.enclosed?_eq_some_iff.1 h
        exact ⟨_, rfl, hinner, rfl⟩
      · exact describes_ofOperation _
    · exact describes_ofOperation _

theorem ofTokens_of_exposed_op {ts : List Token} {o : Operator} (hlen : 2 ≤ ts.length)
    (ho : .op o ∈ Token.parens.exposed 0 ts) : ofTokens ts = ofOperation ts := by
  unfold ofTokens
  rw [Token.enclosed?_eq_none_of_exposed ho]
  -- a call has all that follows its name in parentheses, so nothing there is exposed
  rcases ts with _ | ⟨t, _ | ⟨u, rest⟩⟩
  · simp at hlen
  · simp at hlen
  · have hrest (hp : Token.parens.Plain t) (hne : .op o ≠ t) :
        Token.enclosed? (u :: rest) = none := by
      rw [Brackets.exposed_cons_plain hp, List.mem_cons] at ho
      exact Token.enclosed?_eq_none_of_exposed (ho.resolve_left hne)
    cases t with
    | ident name =>
      have hnone := hrest ⟨rfl, rfl⟩ Token.noConfusion
      simp only [hnone]
    | builtin f =>
      have hnone := hrest ⟨rfl, rfl⟩ Token.noConfusion
      simp only [hnone]
    | _ => rfl

end Shape

end ComplexCalc
