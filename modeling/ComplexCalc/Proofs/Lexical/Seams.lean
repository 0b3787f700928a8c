import ComplexCalc.Proofs.Lexical.Punctuation
import ComplexCalc.Proofs.Lexical.Tokens

/-! Texts put side by side. No lexeme reaches across a blank, nor past a character that begins none
and was not part of a lexeme before, so a blank between two texts keeps their pieces as they are,
and an error stays whatever is written after it. -/

namespace ComplexCalc

open Decimal

theorem Decimal.Exponent.WellFormed.begins {e : Exponent} (h : e.WellFormed) :
    ∀ c ∈ e.chars, Lexeme.Begins c := by
  refine List.forall_mem_cons.2 ⟨?_, List.forall_mem_append.2 ⟨?_, fun c hc => ?_⟩⟩
  · rcases h.mark with hmark | hmark <;> rw [hmark] <;> exact .inr (.inl (by decide +kernel))
  · intro s hs
    rcases h.sign s (Option.mem_toList.1 hs) with rfl | rfl <;> exact .inr (.inr (by decide))
  · exact .inl (h.digits c hc)

namespace Lexeme
variable {l l' : Lexeme} {c : Char} {front left r cs : List Char}

theorem WellFormed.not_blank (h : l.WellFormed) : ∀ c ∈ l.chars, Text.isBlank c = false := by
  intro c hc
  rcases h.chars_cases c hc with hword | rfl | hsymbol
  · exact Text.isBlank_eq_false_of_isWordChar hword
  · decide
  · exact (Token.symbols_apart hsymbol).2.2

/-- A literal may be cut off after its point, which is its one character that begins no lexeme. -/
theorem exists_number_of_chars {n : Literal} (hn : n.WellFormed)
    (h : n.chars = front ++ c :: r) (hc : ¬ Begins c) :
    ∃ l : Lexeme, l.WellFormed ∧ l.chars = front ++ [c] := by
  have hwhole : c ∉ n.whole := fun hmem => hc (.inl (hn.whole c hmem))
  have hexponent : c ∉ n.exponent.elim [] Exponent.chars := by
    cases he : n.exponent with
    | none => exact List.not_mem_nil
    | some e => exact fun hmem => hc ((hn.exponent e he).begins c hmem)
  cases hf : n.fraction with
  | none =>
    have hmem : c ∈ n.chars := h ▸ List.mem_append_right _ List.mem_cons_self
    rw [Literal.chars, hf, Option.elim_none, List.nil_append] at hmem
    exact absurd (List.mem_append.1 hmem) (not_or.2 ⟨hwhole, hexponent⟩)
  | some ds =>
    have hfraction : c ∉ ds ++ n.exponent.elim [] Exponent.chars := by
      rw [List.mem_append, not_or]
      exact ⟨fun hmem => hc (.inl (hn.fraction ds hf c hmem)), hexponent⟩
    rw [Literal.chars, hf, Option.elim_some, List.cons_append] at h
    obtain ⟨hfront, hpoint, -⟩ := (List.append_cons_inj_of_notMem hwhole hfraction).1 h
    refine ⟨.number ⟨n.whole, some [], none⟩, ⟨hn.ne_nil, hn.whole, ?_, ?_⟩, ?_⟩
    · intro ds hds x hx
      cases hds
      cases hx
    · intro e he
      cases he
    · rw [← hfront, ← hpoint]
      rfl

theorem WellFormed.exists_truncation (hl : l.WellFormed) (h : l.chars = front ++ c :: r)
    (hc : ¬ Begins c) : ∃ l' : Lexeme, l'.WellFormed ∧ l'.chars = front ++ [c] := by
  cases l with
  | number n => exact exists_number_of_chars hl h hc
  | word cs =>
    obtain ⟨x, rest, hcs, hx, hrest⟩ := hl
    have hword : x :: rest = front ++ c :: r := hcs ▸ h
    cases front with
    | nil =>
      obtain ⟨rfl, -⟩ := List.cons.inj hword
      exact absurd (.inr (.inl hx)) hc
    | cons y front =>
      obtain ⟨rfl, rfl⟩ := List.cons.inj hword
      have hcut : front ++ [c] <+: front ++ c :: r := ⟨r, (List.append_cons ..).symm⟩
      exact ⟨.word (x :: front ++ [c]),
        ⟨x, front ++ [c], rfl, hx, fun z hz => hrest z (hcut.subset hz)⟩, rfl⟩
  | symbol t =>
    obtain ⟨x, hx⟩ := hl
    have hcx : c ∈ [x] := by
      have hc : c ∈ front ++ c :: r := List.mem_append_right _ List.mem_cons_self
      rwa [← h, chars, text_of_ofSymbol? hx] at hc
    rw [List.mem_singleton.1 hcx] at hc
    exact absurd (.inr (.inr (Token.mem_symbols_of_ofSymbol? hx))) hc

theorem Longest.append (h : l.Longest cs)
    (hend : ∀ l' : Lexeme, l'.WellFormed → ∀ x y, l'.chars = cs ++ x :: y → x :: y <+: r →
      l'.chars.length ≤ l.chars.length) : l.Longest (cs ++ r) := by
  intro l' hl' hpre
  rcases List.prefix_or_prefix_of_prefix hpre (List.prefix_append cs r) with hcs | ⟨y, hy⟩
  · exact h l' hl' hcs
  · cases y with
    | nil => exact h l' hl' ⟨[], by rw [← hy, List.append_nil, List.append_nil]⟩
    | cons x y =>
      rw [← hy, List.prefix_append_right_inj] at hpre
      exact hend l' hl' x y hy.symm hpre

theorem Longest.append_blank (h : l.Longest cs) (hc : Text.isBlank c = true) :
    l.Longest (cs ++ c :: r) := by
  refine h.append fun l' hl' x y hchars hpre => ?_
  obtain ⟨rfl, -⟩ := List.cons_prefix_cons.1 hpre
  have hmem : x ∈ l'.chars := hchars ▸ List.mem_append_right _ List.mem_cons_self
  have hnot := hl'.not_blank x hmem
  rw [hc] at hnot
  cases hnot

theorem Longest.append_unknown (h : l.Longest (front ++ c :: left)) (hl : l.chars <+: front)
    (hc : ¬ Begins c) (b : List Char) : l.Longest (front ++ c :: left ++ b) := by
  refine h.append fun l' hl' x y hchars _ => ?_
  rw [List.append_assoc, List.cons_append] at hchars
  -- cut off after the character, the longer lexeme would have been read in the first place
  obtain ⟨t, ht, htchars⟩ := hl'.exists_truncation hchars hc
  have htpre : t.chars <+: front ++ c :: left :=
    ⟨left, by rw [htchars, List.append_assoc, List.singleton_append]⟩
  have hlong : t.chars.length ≤ l.chars.length := h t ht htpre
  have hshort : l.chars.length ≤ front.length := hl.length_le
  rw [htchars, List.length_append, List.length_singleton] at hlong
  omega

end Lexeme

namespace Tiling
variable {c : Char} {cs rest left : List Char} {ps ps' : List Piece}

theorem append_blank (h : Tiling cs ps []) (hc : Text.isBlank c = true)
    (h' : Tiling (c :: rest) ps' left) : Tiling (cs ++ c :: rest) (ps ++ ps') left := by
  generalize hnil : ([] : List Char) = e at h
  induction h with
  | done => exact h'
  | unknown => cases hnil
  | blank hb _ ih => exact .blank hb (ih hnil)
  | lexeme happ hl hlong _ ih =>
    refine .lexeme ?_ hl (hlong.append_blank hc) (ih hnil)
    rw [happ, List.append_assoc]

theorem not_begins_left (h : Tiling cs ps (c :: left)) : ¬ Lexeme.Begins c := by
  generalize hleft : c :: left = e at h
  induction h with
  | done => cases hleft
  | unknown _ hc =>
    cases hleft
    exact hc
  | blank _ _ ih => exact ih hleft
  | lexeme _ _ _ _ ih => exact ih hleft

theorem append_unknown (h : Tiling cs ps (c :: left)) (b : List Char) :
    Tiling (cs ++ b) ps (c :: left ++ b) := by
  generalize hleft : c :: left = e at h
  induction h with
  | done => cases hleft
  | unknown hb hc =>
    cases hleft
    exact .unknown hb hc
  | blank hb _ ih => exact .blank hb (ih hleft)
  | @lexeme l cs rest e ps happ hl hlong h ih =>
    subst hleft
    refine .lexeme ?_ hl ?_ (ih rfl)
    · rw [happ, List.append_assoc]
    · have hrest : ps.flatMap Piece.chars ++ c :: left = rest := h.flatMap_chars
      rw [← hrest, ← List.append_assoc] at happ
      rw [happ] at hlong ⊢
      exact hlong.append_unknown (List.prefix_append _ _) h.not_begins_left b

end Tiling

namespace Token
variable {ts us : List Token}

def joint (ts us : List Token) : List Token :=
  if ∃ t ∈ ts.getLast?, ∃ u ∈ us.head?, Juxtaposed t u then [.op .mul] else []

theorem getLast?_factors (after : Bool) (ts : List Token) :
    (factors after ts).getLast? = ts.getLast? := by
  induction ts generalizing after with
  | nil => rfl
  | cons t ts ih =>
    have hcons : (t :: factors t.endsOperand ts).getLast? = (t :: ts).getLast? := by
      rw [List.getLast?_cons, List.getLast?_cons, ih]
    rw [factors]
    split
    · rw [List.getLast?_cons_cons, hcons]
    · exact hcons

theorem head?_withProducts (ts : List Token) : (withProducts ts).head? = ts.head? := by
  cases ts with
  | nil => rfl
  | cons t ts => rw [withProducts_cons, List.head?_cons, List.head?_cons]

theorem joint_withProducts (ts us : List Token) :
    joint (withProducts ts) (withProducts us) = joint ts us := by
  rw [joint, joint, head?_withProducts, ← factors_false ts, getLast?_factors]

theorem factors_append (after : Bool) (ts us : List Token) :
    factors after (ts ++ us) =
      factors after ts ++ factors (ts.getLast?.elim after endsOperand) us := by
  induction ts generalizing after with
  | nil => rfl
  | cons t ts ih =>
    have hlast : (t :: ts).getLast?.elim after endsOperand =
        ts.getLast?.elim t.endsOperand endsOperand := by
      rw [List.getLast?_cons]
      cases ts.getLast? <;> rfl
    rw [hlast, List.cons_append, factors, factors, ih]
    split <;> rfl

theorem factors_getLast? (ts us : List Token) :
    factors (ts.getLast?.elim false endsOperand) us = joint ts us ++ withProducts us := by
  cases us with
  | nil => simp [joint, factors, withProducts]
  | cons u us =>
    rw [factors, withProducts_cons, joint]
    cases ts.getLast? with
    | none => simp
    | some t =>
      have hseam : (∃ x ∈ some t, ∃ y ∈ (u :: us).head?, Juxtaposed x y) ↔
          (t.endsOperand && u.isWord) = true := by simp [juxtaposed_iff]
      rw [if_congr hseam rfl rfl, Option.elim_some]
      split <;> rfl

theorem withProducts_append (ts us : List Token) :
    withProducts (ts ++ us) = withProducts ts ++ joint ts us ++ withProducts us := by
  rw [← factors_false, factors_append, factors_getLast?, factors_false, List.append_assoc]

end Token

namespace Lexer
variable {a b w : String} {ta tb : List Token} {e : LexError}

theorem exists_tiling_of_tokenize_error {text : String} (h : tokenize text = .error e) :
    ∃ ps c left, Tiling text.toList ps (c :: left) ∧ e = .unexpectedChar c := by
  obtain ⟨ps, left, htiling⟩ := Tiling.exists_tiling text.toList
  rw [tokenize_of_tiling htiling] at h
  cases left with
  | nil => cases h
  | cons c left =>
    cases h
    exact ⟨ps, c, left, htiling, rfl⟩

theorem tiling_append_blanks {ps ps' : List Piece} {left : List Char}
    (ha : Tiling a.toList ps []) (hw : w ≠ "")
    (hblank : ∀ c ∈ w.toList, Text.isBlank c = true) (hb : Tiling b.toList ps' left) :
    Tiling (a ++ w ++ b).toList (ps ++ (w.toList.map Piece.blank ++ ps')) left := by
  rw [String.toList_append, String.toList_append, List.append_assoc]
  have hrest := Tiling.blanks hblank hb
  obtain ⟨c, cs, hcs⟩ := List.exists_cons_of_ne_nil (mt String.toList_eq_nil_iff.1 hw)
  rw [hcs] at hblank hrest ⊢
  exact ha.append_blank (hblank c List.mem_cons_self) hrest

theorem tokenize_append_blanks (ha : tokenize a = .ok ta) (hw : w ≠ "")
    (hblank : ∀ c ∈ w.toList, Text.isBlank c = true) (hb : tokenize b = .ok tb) :
    tokenize (a ++ w ++ b) = .ok (ta ++ Token.joint ta tb ++ tb) := by
  obtain ⟨ps, hps, rfl⟩ := exists_tiling_of_tokenize ha
  obtain ⟨ps', hps', rfl⟩ := exists_tiling_of_tokenize hb
  have htokens : (ps ++ (w.toList.map Piece.blank ++ ps')).filterMap Piece.token? =
      ps.filterMap Piece.token? ++ ps'.filterMap Piece.token? := by
    rw [List.filterMap_append, List.filterMap_append, Piece.filterMap_blanks, List.nil_append]
  rw [tokenize_of_tiling (tiling_append_blanks hps hw hblank hps'), htokens,
    Token.withProducts_append, Token.joint_withProducts]
  rfl

theorem tokenize_append_blanks_error (ha : tokenize a = .ok ta) (hw : w ≠ "")
    (hblank : ∀ c ∈ w.toList, Text.isBlank c = true) (hb : tokenize b = .error e) :
    tokenize (a ++ w ++ b) = .error e := by
  obtain ⟨ps, hps, -⟩ := exists_tiling_of_tokenize ha
  obtain ⟨ps', c, left, hps', rfl⟩ := exists_tiling_of_tokenize_error hb
  rw [tokenize_of_tiling (tiling_append_blanks hps hw hblank hps')]
  rfl

theorem tokenize_append_of_error (ha : tokenize a = .error e) (b : String) :
    tokenize (a ++ b) = .error e := by
  obtain ⟨ps, c, left, hps, rfl⟩ := exists_tiling_of_tokenize_error ha
  have hlong : Tiling (a ++ b).toList ps (c :: left ++ b.toList) := by
    rw [String.toList_append]
    exact hps.append_unknown b.toList
  rw [tokenize_of_tiling hlong]
  rfl

/-- White space between two texts that have tokens gives the tokens of both, with a multiplication
sign between them if the last ends an operand and the next is a word. Errors are final: white space
before a text keeps its error, and an error stays whatever is written after it. -/
theorem tokenize_compositional (a b : String) :
    (∀ w : String, w ≠ "" → (∀ c ∈ w.toList, Text.isBlank c = true) →
      (∀ ta tb, tokenize a = .ok ta → tokenize b = .ok tb →
        tokenize (a ++ w ++ b) = .ok (ta ++ Token.joint ta tb ++ tb)) ∧
      ∀ ta e, tokenize a = .ok ta → tokenize b = .error e →
        tokenize (a ++ w ++ b) = .error e) ∧
    ∀ e, tokenize a = .error e → tokenize (a ++ b) = .error e := by
  refine ⟨fun w hw hblank => ⟨fun ta tb ha hb => ?_, fun ta e ha hb => ?_⟩, fun e ha => ?_⟩
  · exact tokenize_append_blanks ha hw hblank hb
  · exact tokenize_append_blanks_error ha hw hblank hb
  · exact tokenize_append_of_error ha b

theorem tokenize_compositional_at_exponent :
    tokenize ("2e" ++ " " ++ "3x") =
      .ok [.real 2, .op .mul, .constant .e, .real 3, .op .mul, .ident "x"] ∧
    tokenize ("2e" ++ " " ++ "x") =
      .ok [.real 2, .op .mul, .constant .e, .op .mul, .ident "x"] ∧
    tokenize ("2e" ++ " " ++ "$") = .error (.unexpectedChar '$') ∧
    tokenize ("2.." ++ "5") = .error (.unexpectedChar '.') := by
  have hspace : " " ≠ "" ∧ ∀ c ∈ " ".toList, Text.isBlank c = true :=
    ⟨by decide, List.forall_mem_singleton.2 (by decide)⟩
  have ha : tokenize "2e" = .ok [.real 2, .op .mul, .constant .e] := by decide +kernel
  have hnumber : tokenize "3x" = .ok [.real 3, .op .mul, .ident "x"] := by decide +kernel
  have hname : tokenize "x" = .ok [.ident "x"] := by decide +kernel
  have hunknown : tokenize "$" = .error (.unexpectedChar '$') := by decide +kernel
  have hpoints : tokenize "2.." = .error (.unexpectedChar '.') := by decide +kernel
  have happart : Token.joint [.real 2, .op .mul, .constant .e]
      [.real 3, .op .mul, .ident "x"] = [] := by decide +kernel
  have hfactor : Token.joint [.real 2, .op .mul, .constant .e] [.ident "x"] = [.op .mul] := by
    decide +kernel
  refine ⟨?_, ?_, ?_, ?_⟩
  · rw [((tokenize_compositional "2e" "3x").1 " " hspace.1 hspace.2).1 _ _ ha hnumber, happart]
    rfl
  · rw [((tokenize_compositional "2e" "x").1 " " hspace.1 hspace.2).1 _ _ ha hname, hfactor]
    rfl
  · exact ((tokenize_compositional "2e" "$").1 " " hspace.1 hspace.2).2 _ _ ha hunknown
  · exact (tokenize_compositional "2.." "5").2 _ hpoints

end Lexer

end ComplexCalc
