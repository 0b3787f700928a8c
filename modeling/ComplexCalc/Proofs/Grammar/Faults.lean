import ComplexCalc.Proofs.Grammar.Parsing

/-! The faults of lists of tokens that have no tree. A fault is found at a run of tokens that has it
on its own, wherever it stands; and it is the same fault whether or not errors carry that run. -/

namespace ComplexCalc

theorem Token.infix_of_mem_arguments {inner part : List Token} (h : part ∈ arguments inner) :
    part <:+: inner := by
  unfold arguments at h
  split at h
  · cases h
  · exact Brackets.infix_of_mem_split (fun t => (Grammar.matches_comma_iff t).1) h

namespace Shape
variable {ts part : List Token}

theorem within_of_mem_parts (h : Token.parens.depth? 0 ts = some 0)
    (hpart : part ∈ (ofTokens ts).parts) :
    Token.parens.depth? 0 part = some 0 ∧ part <:+: ts := by
  have hargument {inner : List Token} (hbal : Token.parens.depth? 0 inner = some 0)
      (hmem : part ∈ Token.arguments inner) (t : Token) :
      Token.parens.depth? 0 part = some 0 ∧ part <:+: t :: .lparen :: (inner ++ [.rparen]) := by
    refine ⟨Grammar.balanced_of_mem_arguments hbal hmem, ?_⟩
    have hinner : inner <:+: t :: .lparen :: (inner ++ [.rparen]) :=
      List.infix_append [t, .lparen] inner [.rparen]
    exact (Token.infix_of_mem_arguments hmem).trans hinner
  have hdesc := describes_ofTokens ts
  cases hshape : ofTokens ts with
  | empty => simp [hshape, parts] at hpart
  | leaf t => simp [hshape, parts] at hpart
  | juxtaposition => simp [hshape, parts] at hpart
  | group inner =>
    rw [hshape] at hdesc hpart
    obtain ⟨rfl, hbal⟩ := hdesc
    obtain rfl := List.mem_singleton.1 hpart
    exact ⟨hbal, List.infix_append [Token.lparen] part [.rparen]⟩
  | call name args =>
    rw [hshape] at hdesc hpart
    obtain ⟨inner, rfl, hbal, rfl⟩ := hdesc
    exact hargument hbal hpart _
  | builtin f args =>
    rw [hshape] at hdesc hpart
    obtain ⟨inner, rfl, hbal, rfl⟩ := hdesc
    exact hargument hbal hpart _
  | operation l o r =>
    rw [hshape] at hdesc hpart
    obtain ⟨rfl, hl, hr, -⟩ := (Token.splitAtOperator?_eq_some_iff h).1 hdesc
    rcases List.mem_cons.1 hpart with rfl | hpart
    · exact ⟨hl, (List.prefix_append _ _).isInfix⟩
    · obtain rfl := List.mem_singleton.1 hpart
      exact ⟨hr, ((List.suffix_cons _ _).trans (List.suffix_append _ _)).isInfix⟩

end Shape

/-- Whether a balanced run may have the fault on its own, all its parts being trees. -/
def SyntaxFault.Concerns (ts : List Token) : SyntaxFault → Prop
  | noTokens => ts = []
  | invalidInput | noOperators | missingOperand => ts ≠ []
  | unbalanced | assignment | definition => False

namespace Grammar
variable {diagnostics : Bool} {ts part : List Token} {err : SyntaxError} {e : Expr}

theorem ofRange_eq_error (h : Expr.ofRange diagnostics ts = .error err) :
    (∃ fault, err = .found diagnostics fault ts ∧ fault.Concerns ts) ∨
      ∃ part ∈ (Shape.ofTokens ts).parts, Expr.ofRange diagnostics part = .error err := by
  have hdesc := Shape.describes_ofTokens ts
  have hne (hshape : Shape.ofTokens ts ≠ .empty) : ts ≠ [] := by
    rintro rfl
    exact hshape rfl
  have hargs {args : List (List Token)} {build : List Expr → Expr}
      (h : (args.mapM (Expr.ofRange diagnostics) >>= fun es => pure (build es)) = .error err) :
      ∃ part ∈ args, Expr.ofRange diagnostics part = .error err := by
    rcases bind_eq_error_iff.1 h with h | ⟨es, -, hpure⟩
    · exact exists_of_mapM_eq_error h
    · cases hpure
  rw [Expr.ofRange_eq] at h
  cases hshape : Shape.ofTokens ts with
  | empty =>
    rw [hshape] at h hdesc
    cases h
    exact .inl ⟨.noTokens, rfl, hdesc⟩
  | group inner =>
    rw [hshape] at h
    exact .inr ⟨inner, List.mem_singleton_self inner, h⟩
  | leaf t =>
    simp only [hshape] at h
    split at h <;> cases h
    exact .inl ⟨.invalidInput, rfl, hne (by simp [hshape])⟩
  | call name args =>
    rw [hshape] at h
    exact .inr (hargs h)
  | builtin f args =>
    rw [hshape] at h
    exact .inr (hargs h)
  | operation left o right =>
    simp only [hshape] at h
    rcases bind_eq_error_iff.1 h with h | ⟨rhs, -, h⟩
    · exact .inr ⟨right, by simp [Shape.parts], h⟩
    · split at h
      · split at h <;> cases h
        exact .inl ⟨.missingOperand, rfl, hne (by simp [hshape])⟩
      · rcases bind_eq_error_iff.1 h with h | ⟨lhs, -, hpure⟩
        · exact .inr ⟨left, by simp [Shape.parts], h⟩
        · cases hpure
  | juxtaposition =>
    rw [hshape] at h
    cases h
    exact .inl ⟨.noOperators, rfl, hne (by simp [hshape])⟩

/-- A fault in a balanced run that its context has on its own. -/
structure Located (ts : List Token) (err : SyntaxError) : Prop where
  within : err.context <:+: ts
  balanced : Token.parens.depth? 0 err.context = some 0
  again : Expr.ofRange true err.context = .error err
  concerns : err.fault.Concerns err.context

theorem located_of_ofRange (hbal : Token.parens.depth? 0 ts = some 0)
    (h : Expr.ofRange true ts = .error err) : Located ts err := by
  induction hn : ts.length using Nat.strong_induction_on generalizing ts with
  | h n ih =>
    subst hn
    rcases ofRange_eq_error h with ⟨fault, rfl, hfault⟩ | ⟨part, hpart, herr⟩
    · exact ⟨List.infix_rfl, hbal, h, hfault⟩
    · obtain ⟨hpartbal, hwithin⟩ := Shape.within_of_mem_parts hbal hpart
      have hlocated : Located part err :=
        ih part.length (Shape.length_lt_of_mem_parts hpart) hpartbal herr rfl
      exact { hlocated with within := hlocated.within.trans hwithin }

theorem ofTokens_of_unbalanced (h : Token.parens.balanced ts = false) :
    Expr.ofTokens diagnostics ts = .error (.found diagnostics .unbalanced ts) := by
  rw [Expr.ofTokens, h, if_neg Bool.false_ne_true]

theorem ofTokens_of_balanced (h : Token.parens.depth? 0 ts = some 0) :
    Expr.ofTokens diagnostics ts = Expr.ofRange diagnostics ts := by
  rw [Expr.ofTokens, if_pos (Brackets.balanced_eq_true_iff.2 h)]

theorem ofTokens_eq_error (h : Expr.ofTokens true ts = .error err) :
    (Token.parens.balanced ts = false ∧ err = ⟨.unbalanced, ts⟩) ∨
      (Token.parens.balanced ts = true ∧ Located ts err) := by
  cases hbal : Token.parens.balanced ts with
  | false =>
    rw [ofTokens_of_unbalanced hbal] at h
    cases h
    exact .inl ⟨rfl, rfl⟩
  | true =>
    have hdepth := Brackets.balanced_eq_true_iff.1 hbal
    rw [ofTokens_of_balanced hdepth] at h
    exact .inr ⟨rfl, located_of_ofRange hdepth h⟩

theorem mapError_ofRange (diagnostics : Bool) (ts : List Token) :
    (Expr.ofRange diagnostics ts).mapError .blank = Expr.ofRange false ts := by
  induction hn : ts.length using Nat.strong_induction_on generalizing ts with
  | h n ih =>
    subst hn
    have hpart (part : List Token) (hmem : part ∈ (Shape.ofTokens ts).parts) :
        (Expr.ofRange diagnostics part).mapError .blank = Expr.ofRange false part :=
      ih part.length (Shape.length_lt_of_mem_parts hmem) part rfl
    have hargs {args : List (List Token)} {build : List Expr → Expr}
        (hparts : (Shape.ofTokens ts).parts = args) :
        (args.mapM (Expr.ofRange diagnostics) >>= fun es => pure (build es)).mapError .blank =
          args.mapM (Expr.ofRange false) >>= fun es => pure (build es) := by
      rw [mapError_bind, mapError_mapM fun part hmem => hpart part (hparts ▸ hmem)]
      rfl
    rw [Expr.ofRange_eq diagnostics, Expr.ofRange_eq false]
    cases hshape : Shape.ofTokens ts with
    | empty => rfl
    | juxtaposition => rfl
    | group inner => exact hpart inner (by simp [hshape, Shape.parts])
    | leaf t =>
      dsimp only
      cases Expr.ofToken? t <;> rfl
    | call name args => exact hargs (by rw [hshape]; rfl)
    | builtin f args => exact hargs (by rw [hshape]; rfl)
    | operation left o right =>
      rw [hshape] at hpart
      dsimp only
      rw [mapError_bind, hpart right (by simp [Shape.parts])]
      congr 1
      funext rhs
      split
      · split <;> rfl
      · rw [mapError_bind, hpart left (by simp [Shape.parts])]
        rfl

theorem mapError_ofTokens (diagnostics : Bool) (ts : List Token) :
    (Expr.ofTokens diagnostics ts).mapError .blank = Expr.ofTokens false ts := by
  cases hbal : Token.parens.balanced ts with
  | false =>
    rw [ofTokens_of_unbalanced hbal, ofTokens_of_unbalanced hbal]
    rfl
  | true =>
    have hdepth := Brackets.balanced_eq_true_iff.1 hbal
    rw [ofTokens_of_balanced hdepth, ofTokens_of_balanced hdepth, mapError_ofRange]

theorem fault_of_ofTokens (h : Expr.ofTokens diagnostics ts = .error err) :
    err.fault ≠ .assignment ∧ err.fault ≠ .definition := by
  have hblank : (Expr.ofTokens true ts).mapError .blank = .error err.blank := by
    rw [mapError_ofTokens true, ← mapError_ofTokens diagnostics, h]
    rfl
  obtain ⟨full, hfull, heq⟩ := mapError_eq_error_iff.1 hblank
  have hfault : full.blank.fault = err.blank.fault := congrArg SyntaxError.fault heq
  change full.fault = err.fault at hfault
  rw [← hfault]
  rcases ofTokens_eq_error hfull with ⟨-, rfl⟩ | ⟨-, hlocated⟩
  · exact ⟨nofun, nofun⟩
  · have hconcerns := hlocated.concerns
    constructor <;> intro heq <;> rw [heq] at hconcerns <;> exact hconcerns

theorem Located.context_eq_nil_iff (h : Located ts err) :
    err.context = [] ↔ err.fault = .noTokens := by
  have hconcerns := h.concerns
  cases hfault : err.fault <;> simp_all [SyntaxFault.Concerns]

theorem Located.fault_ne_unbalanced (h : Located ts err) : err.fault ≠ .unbalanced := by
  intro hfault
  have hconcerns := h.concerns
  rw [hfault] at hconcerns
  exact hconcerns

/-- The context of an error stands in the tokens in one piece, and on its own it has the same error.
It is all of them if parentheses do not match, and otherwise its own parentheses match; only when
tokens are missing it is empty. Without diagnostics there is the same fault, or the same tree. -/
theorem context_has_same_error (tokens : List Token) :
    (∀ err, Expr.ofTokens true tokens = .error err →
      err.context <:+: tokens ∧
      Expr.ofTokens true err.context = .error err ∧
      (err.fault = .unbalanced ↔ Token.parens.balanced tokens = false) ∧
      (err.fault = .unbalanced → err.context = tokens) ∧
      (err.fault ≠ .unbalanced → Token.parens.balanced err.context = true) ∧
      (err.context = [] ↔ err.fault = .noTokens) ∧
      Expr.ofTokens false tokens = .error ⟨err.fault, []⟩) ∧
    ∀ e, Expr.ofTokens true tokens = .ok e ↔ Expr.ofTokens false tokens = .ok e := by
  refine ⟨fun err herr => ?_, fun e => by rw [ofTokens_eq_ok_iff, ofTokens_eq_ok_iff]⟩
  have hblank : Expr.ofTokens false tokens = .error ⟨err.fault, []⟩ := by
    rw [← mapError_ofTokens true, herr]
    rfl
  rcases ofTokens_eq_error herr with ⟨hbal, rfl⟩ | ⟨hbal, hlocated⟩
  · have hne : tokens ≠ [] := by
      rintro rfl
      cases hbal
    exact ⟨List.infix_rfl, herr, iff_of_true rfl hbal, fun _ => rfl, fun h => absurd rfl h,
      iff_of_false hne nofun, hblank⟩
  · have hagain : Expr.ofTokens true err.context = .error err := by
      rw [ofTokens_of_balanced hlocated.balanced, hlocated.again]
    have hne := hlocated.fault_ne_unbalanced
    exact ⟨hlocated.within, hagain, iff_of_false hne (by simp [hbal]), fun h => absurd h hne,
      fun _ => Brackets.balanced_eq_true_iff.2 hlocated.balanced, hlocated.context_eq_nil_iff,
      hblank⟩

/-- The tokens of `a + (b c)`, where an operator is missing. -/
def hiddenPair : List Token :=
  [.ident "a", .op .add, .lparen, .ident "b", .ident "c", .rparen]

theorem context_has_same_error_of_hiddenPair :
    Expr.ofTokens true hiddenPair = .error ⟨.noOperators, [.ident "b", .ident "c"]⟩ ∧
    [.ident "b", .ident "c"] <:+: hiddenPair ∧
    Expr.ofTokens true [.ident "b", .ident "c"] =
      .error ⟨.noOperators, [.ident "b", .ident "c"]⟩ ∧
    Token.parens.balanced [.ident "b", .ident "c"] = true ∧
    Expr.ofTokens false hiddenPair = .error ⟨.noOperators, []⟩ := by
  have hpair : Expr.ofRange true [.ident "b", .ident "c"] =
      .error ⟨.noOperators, [.ident "b", .ident "c"]⟩ := by
    rw [Expr.ofRange_eq]
    rfl
  have hgroup : Expr.ofRange true [.lparen, .ident "b", .ident "c", .rparen] =
      .error ⟨.noOperators, [.ident "b", .ident "c"]⟩ := by
    rw [Expr.ofRange_eq]
    exact hpair
  have herr : Expr.ofTokens true hiddenPair =
      .error ⟨.noOperators, [.ident "b", .ident "c"]⟩ := by
    rw [ofTokens_of_balanced rfl, Expr.ofRange_eq]
    exact congrArg (· >>= _) hgroup
  obtain ⟨hwithin, hagain, -, -, hbalanced, -, hblank⟩ :=
    (context_has_same_error hiddenPair).1 _ herr
  exact ⟨herr, hwithin, hagain, hbalanced (by decide), hblank⟩

end Grammar

end ComplexCalc
