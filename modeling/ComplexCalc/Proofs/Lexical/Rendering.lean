import ComplexCalc.Proofs.Lexical.Tokens
import ComplexCalc.Proofs.Number.Terms
import ComplexCalc.Session.Basic

/-! Tokens are printed with a blank between any two of them. What is printed is read as the same
tokens, so a line may be written with all its multiplication signs, and with one spelling of each
word, and still means the same. -/

namespace ComplexCalc

namespace Token

def render (ts : List Token) : String := " ".intercalate (ts.map text)

def Printable : Token → Prop
  | real x => x.isFinite = true ∧ Double.isNegative x = false
  | ident name => IsName name
  | _ => True

variable {name : String} {t u : Token} {ts : List Token} {rest : List Char}

theorem render_cons_cons (t u : Token) (ts : List Token) :
    (render (t :: u :: ts)).toList = t.text.toList ++ ' ' :: (render (u :: ts)).toList := by
  simp only [render, List.map_cons, String.intercalate_cons_cons, String.toList_append,
    List.append_assoc]
  rfl

theorem wellFormed_of_letters (hne : name.toList ≠ [])
    (h : name.toList.all Text.isLetter = true) : (Lexeme.word name.toList).WellFormed := by
  obtain ⟨c, rest, hchars⟩ := List.exists_cons_of_ne_nil hne
  rw [hchars, List.all_cons, Bool.and_eq_true, List.all_eq_true] at h
  refine ⟨c, rest, hchars, h.1, fun x hx => ?_⟩
  rw [Text.isWordChar, h.2 x hx, Bool.true_or]

theorem name_of_constant (c : Constant) :
    (Lexeme.word c.name.toList).WellFormed ∧ ofWord c.name = .constant c := by
  refine ⟨?_, by cases c <;> decide⟩
  cases c <;> exact wellFormed_of_letters (by decide +kernel) (by decide +kernel)

theorem name_of_builtin (f : Builtin) :
    (Lexeme.word f.name.toList).WellFormed ∧ ofWord f.name = .builtin f := by
  refine ⟨?_, by cases f <;> decide⟩
  cases f <;> exact wellFormed_of_letters (by decide +kernel) (by decide +kernel)

def Separated (rest : List Char) : Prop := ∀ c ∈ rest.head?, c = ' '

theorem separated_nil : Separated [] := by
  intro c hc
  cases hc

theorem separated_blank (rest : List Char) : Separated (' ' :: rest) := by
  intro c hc
  cases hc
  rfl

theorem Separated.apart (h : Separated rest) : Number.Apart rest := by
  intro c hc
  rw [h c hc]
  decide

theorem reads_word (hname : (Lexeme.word name.toList).WellFormed) (ht : ofWord name = t)
    (hrest : Separated rest) (h : Reads rest ts) : Reads (name.toList ++ rest) (t :: ts) := by
  obtain ⟨c, w, hchars, hc, hw⟩ := hname
  have hend : ∀ x ∈ rest.head?, Text.isWordChar x = false := by
    intro x hx
    rw [hrest x hx]
    decide +kernel
  have hreads := Reads.word hc hw hend h
  rwa [← hchars, String.ofList_toList, ht] at hreads

theorem reads_symbol (c : Char) (ht : ofSymbol? c = some t) (h : Reads rest ts) :
    Reads (t.text.toList ++ rest) (t :: ts) := by
  rw [Lexeme.text_of_ofSymbol? ht]
  exact Reads.symbol ht h

theorem reads_operator (o : Operator) (h : Reads rest ts) :
    Reads ((op o).text.toList ++ rest) (.op o :: ts) := by
  cases o with
  | add => exact reads_symbol '+' rfl h
  | sub => exact reads_symbol '-' rfl h
  | mul => exact reads_symbol '*' rfl h
  | div => exact reads_symbol '/' rfl h
  | pow => exact reads_symbol '^' rfl h

theorem reads_text (ht : t.Printable) (hrest : Separated rest) (h : Reads rest ts) :
    Reads (t.text.toList ++ rest) (t :: ts) := by
  cases t with
  | real x => exact Number.reads_digits (.of_not_negative ht.1 ht.2) ht.2 hrest.apart h
  | constant c => exact reads_word (name_of_constant c).1 (name_of_constant c).2 hrest h
  | ident name => exact reads_word ht.spelling ht.meaning hrest h
  | builtin f => exact reads_word (name_of_builtin f).1 (name_of_builtin f).2 hrest h
  | op o => exact reads_operator o h
  | lparen => exact reads_symbol '(' rfl h
  | rparen => exact reads_symbol ')' rfl h
  | comma => exact reads_symbol ',' rfl h
  | equals => exact reads_symbol '=' rfl h

theorem reads_render (h : ∀ t ∈ ts, t.Printable) : Reads (render ts).toList ts := by
  induction ts with
  | nil => exact .nil
  | cons t ts ih =>
    have htail := ih fun u hu => h u (List.mem_cons_of_mem t hu)
    have ht := h t List.mem_cons_self
    cases ts with
    | nil =>
      have hreads := reads_text ht separated_nil .nil
      rwa [List.append_nil] at hreads
    | cons u ts =>
      rw [render_cons_cons]
      exact reads_text ht (separated_blank _) (htail.blank (by decide +kernel))

theorem tokenize_render (h : ∀ t ∈ ts, t.Printable)
    (hapart : ts.IsChain (fun t u => ¬ Juxtaposed t u)) : tokenize (render ts) = .ok ts := by
  have hreads := (reads_render h).tokenize_eq
  rwa [withProducts_eq_self hapart] at hreads

theorem Lexed.printable (ht : t.Lexed) (hfinite : ∀ x, t = .real x → x.isInf = false) :
    t.Printable := by
  cases t with
  | real x =>
    have hx : Double.Unsigned x := ht
    exact ⟨hx.isFinite (hfinite x rfl), hx.not_isNegative⟩
  | ident name => exact ht
  | _ => trivial

theorem printable_of_cases (hreal : ∀ x, t = .real x → x.isFinite = true ∧
    Double.isNegative x = false) (hident : ∀ name, t = .ident name → IsName name) :
    t.Printable := by
  cases t with
  | real x => exact hreal x rfl
  | ident name => exact hident name rfl
  | _ => trivial

end Token

theorem Session.process_congr {line line' : String} (h : tokenize line = tokenize line')
    (s : Session) : s.process line = s.process line' := by
  rw [process, process, attempt, attempt, h]

namespace Token

/-- Tokens are read back from their texts if the numbers among them are finite and have no sign, the
identifiers are names, and no neighbours lack a multiplication sign. All tokens of a text are such,
except that a literal may be too large, so the text and what is printed for its tokens mean the same
in every session. -/
theorem render_reads_back :
    (∀ ts : List Token,
      (∀ x, .real x ∈ ts → x.isFinite = true ∧ Double.isNegative x = false) →
      (∀ name, .ident name ∈ ts → IsName name) →
      ts.IsChain (fun t u => ¬ Juxtaposed t u) →
      tokenize (render ts) = .ok ts) ∧
    ∀ (text : String) (ts : List Token), tokenize text = .ok ts →
      (∀ name, .ident name ∈ ts → IsName name) ∧
      ts.IsChain (fun t u => ¬ Juxtaposed t u) ∧
      (∀ x, .real x ∈ ts → x.isNaN = false ∧ Double.isNegative x = false) ∧
      ((∀ x, .real x ∈ ts → x.isInf = false) →
        tokenize (render ts) = .ok ts ∧ ∀ s : Session, s.process (render ts) = s.process text) := by
  constructor
  · intro ts hreal hident hapart
    refine tokenize_render (fun t ht => ?_) hapart
    apply printable_of_cases
    · rintro x rfl
      exact hreal x ht
    · rintro name rfl
      exact hident name ht
  · intro text ts htokens
    obtain ⟨hlexed, hapart⟩ := tokenize_eq_ok htokens
    have hreal (x : Float) (hx : .real x ∈ ts) : Double.Unsigned x := hlexed (.real x) hx
    refine ⟨fun name hname => hlexed (.ident name) hname, hapart, ?_, fun hfinite => ?_⟩
    · exact fun x hx => ⟨(hreal x hx).not_isNaN, (hreal x hx).not_isNegative⟩
    · have hprintable : ∀ t ∈ ts, t.Printable := by
        intro t ht
        apply (hlexed t ht).printable
        rintro x rfl
        exact hfinite x ht
      have hrender := tokenize_render hprintable hapart
      exact ⟨hrender, Session.process_congr (hrender.trans htokens.symm)⟩

def aliased : List Token :=
  [.real 2, .op .mul, .ident "x", .op .mul, .builtin .asin, .lparen, .constant .pi, .rparen]

def adjacent : List Token := [.real 2, .real 1, .lparen, .ident "x"]

theorem render_reads_back_aliased :
    (tokenize "2x arcsin(π)" = .ok aliased ∧ tokenize "2 * x * asin ( pi )" = .ok aliased) ∧
      tokenize "2 1 ( x" = .ok adjacent := by
  have hx : IsName "x" := ⟨⟨'x', [], rfl, by decide, nofun⟩, by decide⟩
  constructor
  · have htokens : tokenize "2x arcsin(π)" = .ok aliased := by decide +kernel
    have hrender : render aliased = "2 * x * asin ( pi )" := by decide +kernel
    obtain ⟨-, -, -, h⟩ := render_reads_back.2 "2x arcsin(π)" aliased htokens
    refine ⟨htokens, hrender ▸ (h fun x hx => ?_).1⟩
    obtain rfl : x = 2 := by simpa [aliased] using hx
    decide +kernel
  · have hrender : render adjacent = "2 1 ( x" := by decide +kernel
    refine hrender ▸ render_reads_back.1 adjacent (fun x hx => ?_) (fun name hname => ?_) ?_
    · obtain rfl | rfl : x = 2 ∨ x = 1 := by simpa [adjacent] using hx
      · decide +kernel
      · decide +kernel
    · obtain rfl : name = "x" := by simpa [adjacent] using hname
      exact hx
    · decide

end Token

end ComplexCalc
