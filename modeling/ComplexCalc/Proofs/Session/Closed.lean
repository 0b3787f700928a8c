import ComplexCalc.Proofs.Session.Statements

/-! Lines that succeed. Whatever their shape, their parentheses match and they have no semicolon, so
each of them is a statement of its own, and stays one if other lines are joined to it. -/

namespace ComplexCalc

theorem textParens_step (d : Nat) (c : Char) :
    textParens.step d c = (Token.mark? c).elim d (Token.parens.step d) := by
  cases hc : Token.mark? c with
  | none =>
    have hplain : textParens.Plain c := by
      constructor <;> refine beq_eq_false_iff_ne.2 fun heq => ?_ <;>
        exact absurd (heq ▸ hc) (by decide)
    exact hplain.step d
  | some t =>
    obtain ⟨hsymbol, hmark⟩ := Option.filter_eq_some_iff.1 hc
    have htext := Lexeme.text_of_ofSymbol? hsymbol
    have hchar {x : Char} (hx : [x] = [c]) : c = x := (List.singleton_inj.1 hx).symm
    cases t with
    | lparen => rw [hchar htext]; rfl
    | rparen => rw [hchar htext]; rfl
    | comma => rw [hchar htext]; rfl
    | equals => rw [hchar htext]; rfl
    | _ => cases hmark

theorem foldl_filterMap_mark? (d : Nat) (cs : List Char) :
    (cs.filterMap Token.mark?).foldl Token.parens.step d = cs.foldl textParens.step d := by
  induction cs generalizing d with
  | nil => rfl
  | cons c cs ih =>
    rw [List.filterMap_cons, List.foldl_cons, textParens_step]
    cases Token.mark? c <;> exact ih _

theorem parens_step : Token.parens.step = fun d t =>
    if t.isMark then Token.parens.step d t else d := by
  funext d t
  cases t <;> rfl

/-- The depth of parentheses after a text is that after its tokens. -/
theorem foldl_step_of_tokenize {text : String} {ts : List Token} (h : tokenize text = .ok ts)
    (d : Nat) : text.toList.foldl textParens.step d = ts.foldl Token.parens.step d := by
  calc text.toList.foldl textParens.step d
    _ = (text.toList.filterMap Token.mark?).foldl Token.parens.step d := by
      rw [foldl_filterMap_mark?]
    _ = (ts.filter Token.isMark).foldl Token.parens.step d := by
      rw [filterMap_mark?_of_tokenize h]
    _ = ts.foldl Token.parens.step d := by
      rw [List.foldl_filter, ← parens_step]

namespace Line

theorem plain_of_mem_listing {t : Token} {ps : List String} (h : t ∈ listing ps) :
    Token.parens.Plain t := by
  induction ps with
  | nil => cases h
  | cons p ps ih =>
    cases ps with
    | nil =>
      rw [List.mem_singleton.1 h]
      exact ⟨rfl, rfl⟩
    | cons q ps =>
      rw [listing_cons_cons] at h
      rcases List.mem_cons.1 h with rfl | h
      · exact ⟨rfl, rfl⟩
      · rcases List.mem_cons.1 h with rfl | h
        · exact ⟨rfl, rfl⟩
        · exact ih h

theorem depth?_heading (name : String) (ps : List String) :
    Token.parens.depth? 0 (heading name ps) = some 0 := by
  have hlisting : Token.parens.depth? 0 (listing ps) = some 0 :=
    Brackets.depth?_of_plain (fun _ => plain_of_mem_listing) 0
  rw [heading, Brackets.depth?_cons_plain ⟨rfl, rfl⟩]
  exact Brackets.depth?_group rfl rfl rfl rfl hlisting

end Line

namespace Session
variable {s s' : Session} {line : String} {r : Reply}

theorem tokens_of_attempt (h : s.attempt line = .ok (r, s')) :
    ∃ ts, tokenize line = .ok ts ∧ ts ≠ [] ∧ Token.parens.depth? 0 ts = some 0 := by
  obtain ⟨ts, hts, ⟨-, ⟨z, hz, -⟩, -⟩ | ⟨name, body, z, rfl, hz, -⟩ |
    ⟨name, ps, body, tree, rfl, -, htree, -⟩⟩ := attempt_eq_ok h
  · obtain ⟨tree, htree, -⟩ := evaluate_eq_ok_iff.1 hz
    exact ⟨ts, hts, htree.phrase.ne_nil, htree.phrase.balanced⟩
  · obtain ⟨tree, htree, -⟩ := evaluate_eq_ok_iff.1 hz
    refine ⟨_, hts, List.cons_ne_nil _ _, ?_⟩
    rw [Brackets.depth?_cons_plain ⟨rfl, rfl⟩, Brackets.depth?_cons_plain ⟨rfl, rfl⟩]
    exact htree.phrase.balanced
  · refine ⟨_, hts, List.cons_ne_nil _ _, ?_⟩
    rw [Brackets.depth?_append_of_eq (Line.depth?_heading name ps),
      Brackets.depth?_cons_plain ⟨rfl, rfl⟩]
    exact (build_eq_ok_iff.1 htree).phrase.balanced

theorem statements_of_attempt (h : s.attempt line = .ok (r, s')) : statements line = [line] := by
  obtain ⟨ts, hts, -, -⟩ := tokens_of_attempt h
  exact statements_of_not_mem (semicolon_not_mem_of_tokenize hts)

theorem closesAll_of_attempt (h : s.attempt line = .ok (r, s')) : ClosesAll line := by
  obtain ⟨ts, hts, -, hbal⟩ := tokens_of_attempt h
  rw [ClosesAll, foldl_step_of_tokenize hts, Brackets.foldl_step_of_depth? hbal]

theorem exists_not_blank_of_attempt (h : s.attempt line = .ok (r, s')) :
    ∃ c ∈ line.toList, Text.isBlank c = false := by
  by_contra hblank
  obtain ⟨ts, hts, hne, -⟩ := tokens_of_attempt h
  rw [Lexer.tokenize_of_blank fun c hc => by simpa using fun hb => hblank ⟨c, hc, hb⟩] at hts
  cases hts
  exact hne rfl

end Session

end ComplexCalc
