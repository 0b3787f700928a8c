import ComplexCalc.Proofs.Lexical.Denotation
import ComplexCalc.Token.Lexer

/-! What the lexer answers call after call: the tokens of the text's pieces, with a multiplication
sign between an operand and a word that follows it, and then the error if there is one. -/

namespace ComplexCalc

namespace Token

/-- The neighbours that are multiplied: an operand's last token, and a word after it. -/
def Juxtaposed (t u : Token) : Prop :=
  ((∃ x, t = real x) ∨ (∃ c, t = constant c) ∨ (∃ n, t = ident n) ∨ (∃ f, t = builtin f) ∨
    t = rparen) ∧
  ((∃ n, u = ident n) ∨ (∃ f, u = builtin f) ∨ ∃ c, u = constant c)

theorem juxtaposed_iff {t u : Token} : Juxtaposed t u ↔ (t.endsOperand && u.isWord) = true := by
  rw [Bool.and_eq_true, Juxtaposed]
  apply and_congr
  · cases t <;> simp [endsOperand]
  · cases u <;> simp [isWord]

instance (t u : Token) : Decidable (Juxtaposed t u) := decidable_of_iff _ juxtaposed_iff.symm

def withProducts : List Token → List Token
  | [] => []
  | [t] => [t]
  | t :: u :: ts =>
    if Juxtaposed t u then t :: op .mul :: withProducts (u :: ts) else t :: withProducts (u :: ts)

def factors (after : Bool) : List Token → List Token
  | [] => []
  | t :: ts =>
    if after && t.isWord then op .mul :: t :: factors t.endsOperand ts
    else t :: factors t.endsOperand ts

theorem withProducts_cons (t : Token) (ts : List Token) :
    withProducts (t :: ts) = t :: factors t.endsOperand ts := by
  induction ts generalizing t with
  | nil => rfl
  | cons u ts ih => simp only [withProducts, factors, juxtaposed_iff, ih]; split <;> rfl

theorem factors_false (ts : List Token) : factors false ts = withProducts ts := by
  cases ts with
  | nil => rfl
  | cons t ts => rw [withProducts_cons]; rfl

end Token

namespace Lexer

/-- The lexer after a number of calls. A call that gives nothing leaves it as it is. -/
def afterCalls : Nat → Lexer → Lexer
  | 0, l => l
  | n + 1, l =>
    match l.next? with
    | none => afterCalls n l
    | some (_, l') => afterCalls n l'

def answer? (l : Lexer) (n : Nat) : Option (Except LexError Token) :=
  (l.afterCalls n).next?.map Prod.fst

variable {l l' : Lexer} {cs left : List Char} {ps : List Piece} {after : Bool}

theorem items_of_next?_eq_none (h : l.next? = none) : l.items = [] := by
  rw [items]
  split
  · rfl
  · rename_i h'
    rw [h] at h'
    cases h'

theorem items_of_next?_eq_some {item : Except LexError Token} (h : l.next? = some (item, l')) :
    l.items = item :: l'.items := by
  rw [items]
  split
  · rename_i h'
    rw [h] at h'
    cases h'
  · rename_i h'
    rw [h] at h'
    cases h'
    rfl

theorem answer?_eq_getElem? (l : Lexer) (n : Nat) : l.answer? n = l.items[n]? := by
  induction n generalizing l with
  | zero =>
    rw [answer?, afterCalls]
    cases h : l.next? with
    | none => rw [items_of_next?_eq_none h]; rfl
    | some p => rw [items_of_next?_eq_some h]; rfl
  | succ n ih =>
    have hcall : l.answer? (n + 1) = (l.next?.elim l Prod.snd).answer? n := by
      rw [answer?, afterCalls]
      cases l.next? <;> rfl
    rw [hcall, ih]
    cases h : l.next? with
    | none => rw [Option.elim_none, items_of_next?_eq_none h, List.getElem?_nil, List.getElem?_nil]
    | some p => rw [items_of_next?_eq_some h]; rfl

theorem next?_blank {c : Char} (hc : Text.isBlank c = true) :
    next? ⟨c :: cs, none, after⟩ = next? ⟨cs, none, after⟩ := by
  simp [next?, hc]

theorem next?_unknown {c : Char} (hb : Text.isBlank c = false) (hc : ¬ Lexeme.Begins c) :
    next? ⟨c :: cs, none, after⟩ = some (.error (.unexpectedChar c), ⟨[], none, after⟩) := by
  have hnone : Lexeme.scan? (c :: cs) = none := Lexeme.scan?_eq_none_iff.2 hc
  simp [next?, hb, hnone]

theorem next?_lexeme {x : Lexeme} {rest : List Char} (hx : x.WellFormed)
    (hscan : Lexeme.scan? cs = some (x, rest)) (after : Bool) :
    next? ⟨cs, none, after⟩ =
      if after && x.token.isWord then some (.ok (.op .mul), ⟨rest, some x.token, false⟩)
      else some (.ok x.token, ⟨rest, none, x.token.endsOperand⟩) := by
  obtain ⟨c, w, hw, hc⟩ := Lexeme.begins_of_wellFormed hx
  obtain ⟨-, rfl⟩ := Lexeme.append_of_scan? hscan
  rw [hw, List.cons_append] at hscan ⊢
  simp [next?, hc.not_blank, hscan]

theorem items_of_tiling (h : Tiling cs ps left) (after : Bool) :
    items ⟨cs, none, after⟩ = (Token.factors after (ps.filterMap Piece.token?)).map .ok ++
      left.head?.toList.map fun c => .error (.unexpectedChar c) := by
  induction h generalizing after with
  | done => exact items_of_next?_eq_none rfl
  | unknown hb hc =>
    rw [items_of_next?_eq_some (next?_unknown hb hc), items_of_next?_eq_none rfl]
    rfl
  | @blank c cs left ps hb _ ih =>
    have hnext : next? ⟨c :: cs, none, after⟩ = next? ⟨cs, none, after⟩ := next?_blank hb
    have hitems : items ⟨c :: cs, none, after⟩ = items ⟨cs, none, after⟩ := by
      rw [items.eq_def, items.eq_def ⟨cs, none, after⟩, hnext]
    rw [hitems, ih]
    rfl
  | @lexeme x cs rest left ps happ hx hlong _ ih =>
    have hscan := Lexeme.scan?_eq_some_iff.2 ⟨happ, hx, hlong⟩
    have hnext := next?_lexeme hx hscan after
    have htokens : (Piece.lexeme x :: ps).filterMap Piece.token? =
        x.token :: ps.filterMap Piece.token? := rfl
    rw [htokens, Token.factors]
    split
    · rename_i hfactor
      rw [if_pos hfactor] at hnext
      -- the word is held back for one call
      have hqueued : next? ⟨rest, some x.token, false⟩ =
        some (.ok x.token, ⟨rest, none, x.token.endsOperand⟩) := rfl
      rw [items_of_next?_eq_some hnext, items_of_next?_eq_some hqueued, ih]
      rfl
    · rename_i hfactor
      rw [if_neg hfactor] at hnext
      rw [items_of_next?_eq_some hnext, ih]
      rfl

theorem items_ofText (h : Tiling text.toList ps left) :
    (ofText text).items = (Token.withProducts (ps.filterMap Piece.token?)).map .ok ++
      left.head?.toList.map fun c => .error (.unexpectedChar c) := by
  rw [← Token.factors_false]
  exact items_of_tiling h false

theorem mapM_ok_append (ts : List Token) (items : List (Except LexError Token)) :
    (ts.map Except.ok ++ items).mapM id = (items.mapM id).map (ts ++ ·) := by
  induction ts with
  | nil =>
    rw [List.map_nil, List.nil_append]
    cases items.mapM id <;> rfl
  | cons t ts ih =>
    rw [List.map_cons, List.cons_append, List.mapM_cons, ih]
    cases items.mapM id <;> rfl

theorem tokenize_of_tiling {text : String} (h : Tiling text.toList ps left) :
    tokenize text = match left.head? with
      | none => .ok (Token.withProducts (ps.filterMap Piece.token?))
      | some c => .error (.unexpectedChar c) := by
  rw [tokenize, items_ofText h, mapM_ok_append]
  cases left.head? with
  | none => exact congrArg Except.ok (List.append_nil _)
  | some c => rfl

theorem exists_tiling_of_tokenize {text : String} {ts : List Token} (h : tokenize text = .ok ts) :
    ∃ ps, Tiling text.toList ps [] ∧ Token.withProducts (ps.filterMap Piece.token?) = ts := by
  obtain ⟨ps, left, htiling⟩ := Tiling.exists_tiling text.toList
  rw [tokenize_of_tiling htiling] at h
  cases left with
  | nil =>
    cases h
    exact ⟨ps, htiling, rfl⟩
  | cons c left => cases h

theorem tokenize_of_blank {text : String} (h : ∀ c ∈ text.toList, Text.isBlank c = true) :
    tokenize text = .ok [] := by
  obtain ⟨ps, htiling, hnone⟩ := Tiling.of_blank h
  rw [tokenize_of_tiling htiling, hnone]
  rfl

/-- There is one way to cut a text into pieces, and one list of tokens that these stand for. Call
after call the lexer answers these tokens, with their multiplication signs, then the error if a
text is left over, then nothing. -/
theorem answers_tokens_of_pieces (text : String) : ∃ ps ts left,
    Tiling text.toList ps left ∧ Denote ps ts ∧
    (∀ ps' left', Tiling text.toList ps' left' → ps' = ps ∧ left' = left) ∧
    (∀ ts', Denote ps ts' → ts' = ts) ∧
    ps.flatMap Piece.chars ++ left = text.toList ∧
    (∀ n, (ofText text).answer? n = ((Token.withProducts ts).map .ok ++
      left.head?.toList.map fun c => .error (.unexpectedChar c))[n]?) ∧
    tokenize text = match left.head? with
      | none => .ok (Token.withProducts ts)
      | some c => .error (.unexpectedChar c) := by
  obtain ⟨ps, left, h⟩ := Tiling.exists_tiling text.toList
  refine ⟨ps, ps.filterMap Piece.token?, left, h, h.denote, fun _ _ h' => h.unique h',
    fun _ h' => h'.eq_tokens, h.flatMap_chars, fun n => ?_, tokenize_of_tiling h⟩
  rw [answer?_eq_getElem?, items_ofText h]

def mixedText : String := "2 arcsin(π)x ?"

def mixedPieces : List Piece :=
  [.lexeme (.number ⟨['2'], none, none⟩), .blank ' ', .lexeme (.word "arcsin".toList),
   .lexeme (.symbol .lparen), .lexeme (.word "π".toList), .lexeme (.symbol .rparen),
   .lexeme (.word "x".toList), .blank ' ']

theorem answers_tokens_of_mixed :
    Tiling mixedText.toList mixedPieces ['?'] ∧
    Denote mixedPieces
      [.real 2, .builtin .asin, .lparen, .constant .pi, .rparen, .ident "x"] ∧
    (∀ n, (ofText mixedText).answer? n = [.ok (.real 2), .ok (.op .mul), .ok (.builtin .asin),
      .ok .lparen, .ok (.constant .pi), .ok .rparen, .ok (.op .mul), .ok (.ident "x"),
      .error (.unexpectedChar '?')][n]?) ∧
    tokenize mixedText = .error (.unexpectedChar '?') := by
  have hunknown : Lexeme.scan? ['?'] = none := by decide +kernel
  have hx : Tiling "x ?".toList [.lexeme (.word "x".toList), .blank ' '] ['?'] :=
    .of_scan? (by decide +kernel) (.blank (by decide)
      (.unknown (by decide) (Lexeme.scan?_eq_none_iff.1 hunknown)))
  have htiling : Tiling mixedText.toList mixedPieces ['?'] :=
    .of_scan? (r := ' ' :: "arcsin(π)x ?".toList) (by decide +kernel) (.blank (by decide)
      (.of_scan? (r := "(π)x ?".toList) (by decide +kernel)
        (.of_scan? (r := "π)x ?".toList) (by decide +kernel)
          (.of_scan? (r := ")x ?".toList) (by decide +kernel) (.of_scan? (by decide +kernel) hx)))))
  have htwo : (Lexeme.number ⟨['2'], none, none⟩).Denotes (.real 2) := by
    have hvalue : (⟨['2'], none, none⟩ : Decimal.Literal).value = 2 := by decide +kernel
    exact hvalue ▸ .number _
  have hpi : (Lexeme.word "π".toList).Denotes (.constant .pi) :=
    .constant (Builtin.ofName?_eq_none_iff.1 (by decide)) (by decide)
  have hname : (Lexeme.word "x".toList).Denotes (.ident "x") :=
    .ident (Builtin.ofName?_eq_none_iff.1 (by decide)) (Constant.ofName?_eq_none_iff.1 (by decide))
  have hdenote : Denote mixedPieces
      [.real 2, .builtin .asin, .lparen, .constant .pi, .rparen, .ident "x"] :=
    .lexeme htwo (.blank (.lexeme (.builtin (by decide)) (.lexeme
      (.symbol (c := '(') (by decide) (by decide)) (.lexeme hpi (.lexeme
        (.symbol (c := ')') (by decide) (by decide)) (.lexeme hname (.blank .nil)))))))
  obtain ⟨ps, ts, left, -, -, hunique, htokens, -, hanswers, htokenize⟩ :=
    answers_tokens_of_pieces mixedText
  obtain ⟨rfl, rfl⟩ := hunique _ _ htiling
  obtain rfl := htokens _ hdenote
  exact ⟨htiling, hdenote, hanswers, htokenize⟩

end Lexer

end ComplexCalc
