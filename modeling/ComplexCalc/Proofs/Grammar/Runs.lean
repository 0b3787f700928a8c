import ComplexCalc.Proofs.Grammar.Faults
import ComplexCalc.Proofs.Nesting.Positions

/-! Where the runs of tokens that a tree is built of are taken apart: at the last operator of the
loosest tier, or at the commas, outside all parentheses. Operators are looked for from the end and
commas from the start. Both ways the depths agree, because the parts of a balanced run are balanced.
-/

namespace ComplexCalc

/-- The runs that building the tree of some tokens comes to: all of them, and the parts of each. An
error may keep it from some of these, and of the parts of a sign the left one, which is empty, is
not built. -/
inductive Expr.Visits (tokens : List Token) : List Token → Prop
  | whole : Token.parens.balanced tokens = true → Visits tokens tokens
  | part {range part : List Token} : Visits tokens range →
    part ∈ (Shape.ofTokens range).parts → Visits tokens part

theorem Expr.Visits.balanced {tokens run : List Token} (h : Visits tokens run) :
    Token.parens.balanced run = true := by
  induction h with
  | whole h => exact h
  | part _ hpart ih =>
    have hdepth := Brackets.balanced_eq_true_iff.1 ih
    exact Brackets.balanced_eq_true_iff.2 (Shape.within_of_mem_parts hdepth hpart).1

namespace Grammar
variable {diagnostics : Bool} {range inner l r : List Token} {o : Operator} {e : Expr}
  {err : SyntaxError}

theorem visits_of_ofRange {run : List Token} (hrun : Expr.Visits range run)
    (h : Expr.ofRange true run = .error err) : Expr.Visits range err.context := by
  induction hn : run.length using Nat.strong_induction_on generalizing run with
  | h n ih =>
    subst hn
    rcases ofRange_eq_error h with ⟨fault, rfl, -⟩ | ⟨part, hpart, herr⟩
    · exact hrun
    · exact ih part.length (Shape.length_lt_of_mem_parts hpart) (.part hrun hpart) herr rfl

structure SplitsAt (range : List Token) (i : Nat) (o : Operator) : Prop where
  exposed : Token.parens.ExposedAt range i (.op o)
  loosest : ∀ j o', Token.parens.ExposedAt range j (.op o') → o.precedence ≤ o'.precedence
  last : ∀ j o', Token.parens.ExposedAt range j (.op o') → o'.precedence = o.precedence → j ≤ i

theorem splitsAt_iff (hl : Token.parens.depth? 0 l = some 0) :
    SplitsAt (l ++ .op o :: r) l.length o ↔
      (∀ o', .op o' ∈ Token.parens.exposed 0 l → o.precedence ≤ o'.precedence) ∧
      ∀ o', .op o' ∈ Token.parens.exposed 0 r → o.precedence < o'.precedence := by
  have hpositions {j : Nat} {t : Token} :=
    Brackets.exposedAt_append_cons_iff (r := r) (i := j) (x := t) hl (Token.plain_op o)
  simp only [Brackets.mem_exposed_iff_exposedAt]
  constructor
  · rintro ⟨-, hloosest, hlast⟩
    constructor
    · rintro o' ⟨j, hj⟩
      exact hloosest j o' (hpositions.2 (.inl hj))
    · rintro o' ⟨k, hk⟩
      have hj := hpositions.2 (.inr (.inr ⟨k, rfl, hk⟩))
      refine Nat.lt_of_le_of_ne (hloosest _ o' hj) fun heq => ?_
      have := hlast _ o' hj heq.symm
      omega
  · rintro ⟨hleft, hright⟩
    refine ⟨hpositions.2 (.inr (.inl ⟨rfl, rfl⟩)), fun j o' hj => ?_, fun j o' hj heq => ?_⟩
    · rcases hpositions.1 hj with hj | ⟨-, heq⟩ | ⟨k, -, hk⟩
      · exact hleft o' ⟨j, hj⟩
      · cases heq
        exact Nat.le_refl _
      · exact Nat.le_of_lt (hright o' ⟨k, hk⟩)
    · rcases hpositions.1 hj with hj | ⟨rfl, -⟩ | ⟨k, -, hk⟩
      · exact Nat.le_of_lt (List.getElem?_eq_some_iff.1 hj.1).1
      · exact Nat.le_refl _
      · exact absurd heq (Nat.ne_of_gt (hright o' ⟨k, hk⟩))

theorem splitAtOperator?_eq_some_iff_splitsAt (h : Token.parens.depth? 0 range = some 0) :
    Token.splitAtOperator? range = some (l, o, r) ↔
      ∃ i, l = range.take i ∧ r = range.drop (i + 1) ∧ SplitsAt range i o := by
  rw [Token.splitAtOperator?_eq_some_iff h]
  constructor
  · rintro ⟨rfl, hl, -, hsides⟩
    exact ⟨l.length, by simp, by simp, (splitsAt_iff hl).2 hsides⟩
  · rintro ⟨i, rfl, rfl, hsplits⟩
    have hrange := Brackets.eq_append_of_getElem? hsplits.exposed.1
    have hi : (range.take i).length = i := by
      have := (List.getElem?_eq_some_iff.1 hsplits.exposed.1).1
      simp only [List.length_take]
      omega
    obtain ⟨hl, hr⟩ := Brackets.depth?_sides (Token.plain_op o) (hrange ▸ h) hsplits.exposed.2
    refine ⟨hrange, hl, hr, (splitsAt_iff hl).1 ?_⟩
    rwa [← hrange, hi]

/-- At every token of a balanced run that is no parenthesis, a search from the end has counted the
depth that a count from the start gives, and it never lowers a depth of zero. If no operator is
outside all parentheses it finds none. Otherwise it splits the run at the last operator of the
loosest tier, into two balanced runs. So every run that building a tree comes to is balanced; an
error is found at one of these. -/
theorem splits_at_last_loosest_operator (h : Token.parens.balanced range = true) :
    (∀ i t, range[i]? = some t → Token.parens.Plain t →
      Token.parens.depthFromEnd range i = Token.parens.depthAt range i) ∧
    (∀ i, range[i]? = some .lparen → 0 < Token.parens.depthFromEnd range i) ∧
    (Token.splitAtOperator? range = none ↔ ∀ i o, ¬ Token.parens.ExposedAt range i (.op o)) ∧
    (∀ l o r, Token.splitAtOperator? range = some (l, o, r) ↔
      ∃ i, l = range.take i ∧ r = range.drop (i + 1) ∧ SplitsAt range i o) ∧
    (∀ l o r, Token.splitAtOperator? range = some (l, o, r) →
      Token.parens.balanced l = true ∧ Token.parens.balanced r = true) ∧
    (∀ run, Expr.Visits range run → Token.parens.balanced run = true) ∧
    ∀ err, Expr.ofTokens true range = .error err → Expr.Visits range err.context := by
  have hdepth := Brackets.balanced_eq_true_iff.1 h
  refine ⟨fun i t ht hplain => ?_, fun i ht => ?_, ?_, fun l o r => ?_, fun l o r hsplit => ?_,
    fun run hrun => hrun.balanced, fun err herr => ?_⟩
  · exact Brackets.depthFromEnd_eq_depthAt Token.parens_proper hdepth ht hplain
  · exact Brackets.depthFromEnd_pos Token.parens_proper hdepth ht rfl
  · simp only [Token.splitAtOperator?_eq_none_iff hdepth, Brackets.not_mem_exposed_iff]
    exact forall_comm
  · exact splitAtOperator?_eq_some_iff_splitsAt hdepth
  · obtain ⟨-, hl, hr, -⟩ := (Token.splitAtOperator?_eq_some_iff hdepth).1 hsplit
    exact ⟨Brackets.balanced_eq_true_iff.2 hl, Brackets.balanced_eq_true_iff.2 hr⟩
  · rw [ofTokens_of_balanced hdepth] at herr
    exact visits_of_ofRange (.whole h) herr

/-- The tokens of `-a*(b + c) - d^e`. -/
def twoMinuses : List Token :=
  [.op .sub, .ident "a", .op .mul, .lparen, .ident "b", .op .add, .ident "c", .rparen,
    .op .sub, .ident "d", .op .pow, .ident "e"]

theorem splits_at_second_minus : Token.parens.balanced twoMinuses = true ∧
    ∃ i, twoMinuses.take 8 = twoMinuses.take i ∧ twoMinuses.drop 9 = twoMinuses.drop (i + 1) ∧
      SplitsAt twoMinuses i .sub := by
  have hbal : Token.parens.balanced twoMinuses = true := by decide
  obtain ⟨-, -, -, hsplit, -⟩ := splits_at_last_loosest_operator hbal
  exact ⟨hbal, (hsplit _ _ _).1 (by decide)⟩

theorem map_ofTokens_arguments (h : Token.parens.depth? 0 inner = some 0) :
    (Token.arguments inner).map (Expr.ofTokens diagnostics) =
      (Token.arguments inner).map (Expr.ofRange diagnostics) :=
  List.map_congr_left fun _ hpart => ofTokens_of_balanced (balanced_of_mem_arguments h hpart)

theorem ofTokens_eq_ok_iff_of_arguments {t : Token} {build : List Expr → Expr}
    (ht : Token.parens.Plain t) (h : Token.parens.depth? 0 inner = some 0)
    (hrange : Expr.ofRange diagnostics (t :: .lparen :: (inner ++ [.rparen])) =
      (Token.arguments inner).mapM (Expr.ofRange diagnostics) >>= fun args => pure (build args)) :
    Expr.ofTokens diagnostics (t :: .lparen :: (inner ++ [.rparen])) = .ok e ↔
      ∃ args, e = build args ∧
        (Token.arguments inner).map (Expr.ofTokens diagnostics) = args.map .ok := by
  have hbal : Token.parens.depth? 0 (t :: .lparen :: (inner ++ [.rparen])) = some 0 := by
    rw [Brackets.depth?_cons_plain ht]
    exact Brackets.depth?_group rfl rfl rfl rfl h
  rw [ofTokens_of_balanced hbal, hrange, bind_eq_ok_iff, map_ofTokens_arguments h]
  refine exists_congr fun args => ?_
  rw [mapM_eq_ok_iff_map, and_comm]
  exact and_congr_left' ⟨fun heq => (Except.ok.inj heq).symm, fun heq => congrArg _ heq.symm⟩

/-- The parts of a balanced run are the only balanced ones, with every comma inside parentheses,
that give the run when they are joined by commas. No parts at all also give a run, the empty one,
but that has one part. There is one part more than there are commas outside all parentheses, and
the count of the depth never lowers a depth of zero. So the arguments of a call, if anything stands
between its parentheses, are these parts in their order, each with its own tree. -/
theorem splits_at_outer_commas (h : Token.parens.balanced range = true) :
    (∀ parts, Token.parens.split (· matches .comma) range = parts ↔
      parts ≠ [] ∧ [Token.comma].intercalate parts = range ∧
      ∀ part ∈ parts, Token.parens.balanced part = true ∧
        ∀ i, ¬ Token.parens.ExposedAt part i .comma) ∧
    (Token.parens.split (· matches .comma) range).length =
      ((List.range range.length).countP fun i => Token.parens.ExposedAt range i .comma) + 1 ∧
    (∀ i, range[i]? = some .rparen → 0 < Token.parens.depthAt range i) ∧
    Token.arguments range =
      (if range = [] then [] else Token.parens.split (· matches .comma) range) ∧
    (∀ diagnostics name e,
      Expr.ofTokens diagnostics (.ident name :: .lparen :: (range ++ [.rparen])) = .ok e ↔
        ∃ args, e = .call name args ∧
          (Token.arguments range).map (Expr.ofTokens diagnostics) = args.map .ok) ∧
    ∀ diagnostics f e,
      Expr.ofTokens diagnostics (.builtin f :: .lparen :: (range ++ [.rparen])) = .ok e ↔
        ∃ args, e = .builtin f args ∧
          (Token.arguments range).map (Expr.ofTokens diagnostics) = args.map .ok := by
  have hdepth := Brackets.balanced_eq_true_iff.1 h
  refine ⟨fun parts => ?_, Brackets.length_split matches_comma_iff ⟨rfl, rfl⟩ range,
    fun i ht => Brackets.depthAt_pos Token.parens_proper hdepth ht rfl, ?_,
    fun diagnostics name e => ?_, fun diagnostics f e => ?_⟩
  · simp only [Brackets.balanced_eq_true_iff]
    exact Brackets.split_eq_iff_of_balanced matches_comma_iff ⟨rfl, rfl⟩ hdepth
  · rw [Token.arguments]
    exact if_congr List.isEmpty_iff rfl rfl
  · refine ofTokens_eq_ok_iff_of_arguments ⟨rfl, rfl⟩ hdepth ?_
    rw [Expr.ofRange_eq, ofTokens_call name hdepth]
  · refine ofTokens_eq_ok_iff_of_arguments ⟨rfl, rfl⟩ hdepth ?_
    rw [Expr.ofRange_eq, ofTokens_builtin f hdepth]

/-- The tokens of `a, g(b, c)`. -/
def twoCommas : List Token :=
  [.ident "a", .comma, .ident "g", .lparen, .ident "b", .comma, .ident "c", .rparen]

theorem splits_at_first_comma : Token.parens.balanced twoCommas = true ∧
    Expr.ofTokens true (.ident "f" :: .lparen :: (twoCommas ++ [.rparen])) =
      .ok (.call "f" [.call "a" [], .call "g" [.call "b" [], .call "c" []]]) := by
  have hbal : Token.parens.balanced twoCommas = true := by decide
  obtain ⟨-, -, -, -, hcall, -⟩ := splits_at_outer_commas hbal
  refine ⟨hbal, (hcall true "f" _).2 ⟨_, rfl, ?_⟩⟩
  cbv

end Grammar

end ComplexCalc
