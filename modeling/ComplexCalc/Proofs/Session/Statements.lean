import ComplexCalc.Proofs.Lexical.Punctuation
import ComplexCalc.Proofs.Nesting.Parts
import ComplexCalc.Proofs.Session.Run
import ComplexCalc.Session.Statements

/-! Statements as texts: the parts that a text is made up of, joining lines that leave no
parenthesis open, and telling from its text whether a statement is an assignment. -/

namespace ComplexCalc

/-- Whether no parenthesis is open at the end of a text. One that closes nothing is ignored. -/
def ClosesAll (text : String) : Prop := text.toList.foldl textParens.step 0 = 0

instance (text : String) : Decidable (ClosesAll text) := inferInstanceAs (Decidable (_ = 0))

theorem textParens_proper : textParens.Proper := by
  intro c hc
  rw [eq_of_beq (a := c) hc]
  rfl

theorem semicolon_plain {c : Char} (hc : (c == ';') = true) : textParens.Plain c := by
  rw [eq_of_beq hc]
  exact ⟨rfl, rfl⟩

theorem statements_of_not_mem {text : String} (h : ';' ∉ text.toList) :
    statements text = [text] := by
  have hnone : ∀ c ∈ textParens.exposed 0 text.toList, (c == ';') = false := by
    intro c hc
    obtain ⟨l, r, htext, -⟩ := Brackets.mem_exposed_iff.1 hc
    rw [beq_eq_false_iff_ne]
    rintro rfl
    exact h (htext ▸ List.mem_append_right l List.mem_cons_self)
  rw [statements, Brackets.split, Brackets.splitFrom_of_exposed hnone, List.map_singleton,
    String.ofList_toList]

theorem statements_append {line : String} (h : ClosesAll line) (text : String) :
    statements (line ++ ";" ++ text) = statements line ++ statements text := by
  have htext : (line ++ ";" ++ text).toList = line.toList ++ ';' :: text.toList := by simp
  rw [statements, htext, Brackets.split,
    Brackets.splitFrom_append_cons (fun _ => semicolon_plain) rfl h, List.map_append]
  rfl

theorem statements_intercalate {lines : List String} (h : ∀ line ∈ lines, ClosesAll line)
    (hne : lines ≠ []) : statements (";".intercalate lines) = lines.flatMap statements := by
  induction lines with
  | nil => exact absurd rfl hne
  | cons line lines ih =>
    obtain ⟨hline, hlines⟩ := List.forall_mem_cons.1 h
    cases lines with
    | nil => simp
    | cons next lines =>
      rw [String.intercalate_cons_cons, statements_append hline, List.flatMap_cons,
        ih hlines (List.cons_ne_nil _ _)]

section Parts
variable {text part : String} {parts : List String}

theorem map_toList_statements (text : String) :
    (statements text).map String.toList = textParens.split (· == ';') text.toList := by
  have hid : String.toList ∘ String.ofList = id := funext fun _ => String.toList_ofList
  rw [statements, List.map_map, hid, List.map_id]

theorem forall_exposed_iff : (∀ c ∈ textParens.exposed 0 part.toList, (c == ';') = false) ↔
    ∀ l r, part.toList = l ++ ';' :: r → 0 < l.foldl textParens.step 0 := by
  rw [Brackets.forall_exposed_eq_false_iff fun _ => beq_iff_eq, Brackets.mem_exposed_iff]
  simp only [not_exists, not_and, Nat.pos_iff_ne_zero]

theorem parts_map_toList_iff :
    textParens.Parts (· == ';') (parts.map String.toList) ↔ parts ≠ [] ∧
      (∀ part ∈ parts, ∀ l r, part.toList = l ++ ';' :: r → 0 < l.foldl textParens.step 0) ∧
      ∀ part ∈ parts.dropLast, ClosesAll part := by
  rw [Brackets.parts_iff, ← List.map_dropLast, List.forall_mem_map, List.forall_mem_map]
  refine and_congr (not_congr List.map_eq_nil_iff) (and_congr ?_ Iff.rfl)
  exact forall₂_congr fun part _ => forall_exposed_iff

theorem eq_statements_iff : parts = statements text ↔
    parts ≠ [] ∧ ";".intercalate parts = text ∧
      (∀ part ∈ parts, ∀ l r, part.toList = l ++ ';' :: r → 0 < l.foldl textParens.step 0) ∧
      ∀ part ∈ parts.dropLast, ClosesAll part := by
  have hsep : ∀ c : Char, (c == ';') = true ↔ c = ';' := fun c => beq_iff_eq
  have hjoin : [';'].intercalate (parts.map String.toList) = text.toList ↔
      ";".intercalate parts = text := by
    rw [← String.toList_inj, String.toList_intercalate]
    rfl
  calc parts = statements text
    _ ↔ textParens.split (· == ';') text.toList = parts.map String.toList := by
      rw [← map_toList_statements, eq_comm]
      exact (List.map_injective_iff.2 fun _ _ => String.toList_injective).eq_iff.symm
    _ ↔ textParens.Parts (· == ';') (parts.map String.toList) ∧ ";".intercalate parts = text := by
      rw [Brackets.split_eq_iff hsep, hjoin]
    _ ↔ _ := by
      rw [parts_map_toList_iff, and_assoc]
      exact and_congr_right' and_comm

theorem statements_surplus {l : String} (hl : ClosesAll l) (r : String) :
    ∃ before x y after, statements l = before ++ [x] ∧ statements r = y :: after ∧
      statements (l ++ r) = before ++ (x ++ y) :: after ∧
      statements (l ++ ")" ++ r) = before ++ (x ++ ")" ++ y) :: after := by
  obtain ⟨before, part, hbefore, happend⟩ :=
    Brackets.exists_splitFrom_append (fun _ => semicolon_plain) hl
  have hne : textParens.splitFrom (· == ';') 0 r.toList ≠ [] := Brackets.splitFrom_ne_nil 0 _
  obtain ⟨first, after, hafter⟩ := List.exists_cons_of_ne_nil hne
  have hsurplus : textParens.split (· == ';') (')' :: r.toList) = (')' :: first) :: after := by
    have hstep : textParens.split (· == ';') (')' :: r.toList) =
      (textParens.splitFrom (· == ';') 0 r.toList).modifyHead (')' :: ·) := rfl
    rw [hstep, hafter, List.modifyHead_cons]
  refine ⟨before.map String.ofList, String.ofList part, String.ofList first,
    after.map String.ofList, ?_, ?_, ?_, ?_⟩
  · rw [statements, Brackets.split, hbefore, List.map_append, List.map_singleton]
  · rw [statements, Brackets.split, hafter, List.map_cons]
  · rw [statements, String.toList_append, Brackets.split, happend, Brackets.split, hafter,
      List.modifyHead_cons, List.map_append, List.map_cons, String.ofList_append]
  · have htext : (l ++ ")" ++ r).toList = l.toList ++ ')' :: r.toList := by simp
    have hpart : String.ofList (part ++ ')' :: first) =
        String.ofList part ++ ")" ++ String.ofList first := by
      rw [List.append_cons, String.ofList_append, String.ofList_append]
    rw [statements, htext, Brackets.split, happend, hsurplus, List.modifyHead_cons,
      List.map_append, List.map_cons, hpart]

theorem exists_unclosed_of_mem_statements (h : part ∈ statements text) {l r : List Char}
    (hpart : part.toList = l ++ ';' :: r) :
    ∃ x y, l = x ++ '(' :: y ∧ (textParens.depth? 0 y).isSome = true := by
  obtain ⟨-, -, hinside, -⟩ := eq_statements_iff.1 (rfl : statements text = statements text)
  have hopen : 0 < l.foldl textParens.step 0 := hinside part h l r hpart
  rcases Brackets.exists_unclosed textParens_proper hopen with ⟨x, o, y, hl, ho, hy⟩ | ⟨hpos, -⟩
  · obtain rfl : o = '(' := eq_of_beq ho
    exact ⟨x, y, hl, hy⟩
  · exact absurd hpos (Nat.lt_irrefl 0)

/-- The statements of a text are the one list of parts that gives the text when it is joined by
semicolons, in which a semicolon has an open parenthesis of its part before it, and in which no part
but the last leaves a parenthesis open. No parts at all also give a text, the empty one, but then
there is no last part. A parenthesis that closes nothing changes its own statement only, and a
statement with a semicolon has a parenthesis before it that is not closed up to there. -/
theorem statements_decomposition (text : String) :
    (∀ parts, parts = statements text ↔ parts ≠ [] ∧ ";".intercalate parts = text ∧
      (∀ part ∈ parts, ∀ l r, part.toList = l ++ ';' :: r → 0 < l.foldl textParens.step 0) ∧
      ∀ part ∈ parts.dropLast, ClosesAll part) ∧
    (∀ l r, text = l ++ ")" ++ r → ClosesAll l → ∃ before x y after,
      statements l = before ++ [x] ∧ statements r = y :: after ∧
      statements (l ++ r) = before ++ (x ++ y) :: after ∧
      statements text = before ++ (x ++ ")" ++ y) :: after) ∧
    ∀ part ∈ statements text, ∀ l r, part.toList = l ++ ';' :: r →
      ∃ x y, l = x ++ '(' :: y ∧ (textParens.depth? 0 y).isSome = true := by
  refine ⟨fun parts => eq_statements_iff, ?_, fun part hmem l r hpart => ?_⟩
  · rintro l r rfl hl
    exact statements_surplus hl r
  · exact exists_unclosed_of_mem_statements hmem hpart

theorem statements_decomposition_of_surplus :
    (∃ before x y after, statements "x = 2" = before ++ [x] ∧
      statements "; f(a; b); x" = y :: after ∧
      statements ("x = 2" ++ "; f(a; b); x") = before ++ (x ++ y) :: after ∧
      statements "x = 2); f(a; b); x" = before ++ (x ++ ")" ++ y) :: after) ∧
    ∃ x y, [' ', 'f', '(', 'a'] = x ++ '(' :: y ∧ (textParens.depth? 0 y).isSome = true := by
  have hclosed : ClosesAll "x = 2" := by decide
  have hmem : " f(a; b)" ∈ statements "x = 2); f(a; b); x" := by decide +kernel
  obtain ⟨-, hsurplus, hunclosed⟩ := statements_decomposition "x = 2); f(a; b); x"
  exact ⟨hsurplus "x = 2" "; f(a; b); x" rfl hclosed,
    hunclosed " f(a; b)" hmem [' ', 'f', '(', 'a'] [' ', 'b', ')'] rfl⟩

end Parts

theorem isBinding_iff_mem {text : String} {ts : List Token} (h : tokenize text = .ok ts) :
    isBinding text = true ↔ .equals ∈ ts := by
  have hmarks := filterMap_mark?_of_tokenize h
  calc isBinding text = true
    _ ↔ '=' ∈ text.toList := List.contains_iff_mem
    _ ↔ Token.equals ∈ text.toList.filterMap Token.mark? := by
      rw [List.mem_filterMap]
      constructor
      · exact fun hmem => ⟨'=', hmem, rfl⟩
      · rintro ⟨c, hmem, hc⟩
        exact Token.mark?_eq_equals_iff.1 hc ▸ hmem
    _ ↔ Token.equals ∈ ts := by
      rw [hmarks, List.mem_filter]
      exact and_iff_left rfl

namespace Session.Step
variable {e : Step} {z : Number}

def isAssignment (e : Step) : Bool :=
  match tokenize e.line, e.answer with
  | .ok (.ident _ :: .equals :: _), .ok _ => true
  | _, _ => false

theorem isAssignment_iff : e.isAssignment = true ↔ ∃ name, e.Assigns name := by
  unfold isAssignment Assigns Succeeds
  split
  · rename_i htokens hanswer
    simp [htokens, hanswer]
  · rename_i hnot
    simp only [Bool.false_eq_true, false_iff, not_exists, not_and]
    rintro name ⟨r, hr⟩ body htokens
    exact hnot name body r htokens hr

theorem isBinding_eq_isAssignment (h : e.answer = .ok (.value z)) :
    isBinding e.line = e.isAssignment := by
  obtain ⟨r, hr⟩ := succeeds_iff.1 ⟨_, h⟩
  rw [answer_eq, hr] at h
  cases h
  rw [Bool.eq_iff_iff, isAssignment_iff]
  obtain ⟨ts, hts, ⟨hno, -, -⟩ | ⟨name, body, w, rfl, -⟩ |
    ⟨name, ps, body, tree, -, -, -, hr, -⟩⟩ := attempt_eq_ok hr
  · rw [isBinding_iff_mem hts]
    refine iff_of_false hno ?_
    rintro ⟨name, -, body, htokens⟩
    cases hts.symm.trans htokens
    exact hno (List.mem_cons_of_mem _ List.mem_cons_self)
  · rw [isBinding_iff_mem hts]
    exact iff_of_true (List.mem_cons_of_mem _ List.mem_cons_self)
      ⟨name, succeeds_iff.2 ⟨_, hr⟩, body, hts⟩
  · cases hr

end Session.Step

end ComplexCalc
