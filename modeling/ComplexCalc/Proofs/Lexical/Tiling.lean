import ComplexCalc.Proofs.Lexical.Longest
import Mathlib.Data.Nat.Init

/-! A text is cut from the left into blanks and lexemes, each lexeme as long as possible, up to the
end or to a character that begins no lexeme. There is exactly one way to do so. -/

namespace ComplexCalc

inductive Piece
  | blank (c : Char)
  | lexeme (l : Lexeme)

namespace Piece

def chars : Piece → List Char
  | blank c => [c]
  | lexeme l => l.chars

def token? : Piece → Option Token
  | blank _ => none
  | lexeme l => some l.token

theorem filterMap_blanks (cs : List Char) : (cs.map blank).filterMap token? = [] := by
  rw [List.filterMap_map]
  exact List.filterMap_eq_nil_iff.2 fun _ _ => rfl

end Piece

/-- The text, its pieces, and what is left of it after them. -/
inductive Tiling : List Char → List Piece → List Char → Prop
  | done : Tiling [] [] []
  | unknown {c : Char} {cs : List Char} : Text.isBlank c = false → ¬ Lexeme.Begins c →
      Tiling (c :: cs) [] (c :: cs)
  | blank {c : Char} {cs left : List Char} {ps : List Piece} : Text.isBlank c = true →
      Tiling cs ps left → Tiling (c :: cs) (.blank c :: ps) left
  | lexeme {l : Lexeme} {cs rest left : List Char} {ps : List Piece} : cs = l.chars ++ rest →
      l.WellFormed → l.Longest cs → Tiling rest ps left → Tiling cs (.lexeme l :: ps) left

namespace Tiling
variable {cs left left' : List Char} {ps ps' : List Piece}

theorem of_scan? {l : Lexeme} {r : List Char} (hscan : Lexeme.scan? cs = some (l, r))
    (h : Tiling r ps left) : Tiling cs (.lexeme l :: ps) left := by
  obtain ⟨happ, hl, hlong⟩ := Lexeme.scan?_eq_some_iff.1 hscan
  exact .lexeme happ hl hlong h

theorem exists_tiling (cs : List Char) : ∃ ps left, Tiling cs ps left := by
  -- on the length, as a lexeme takes more than one character off
  induction hn : cs.length using Nat.strong_induction_on generalizing cs with
  | _ n ih =>
    subst hn
    cases cs with
    | nil => exact ⟨[], [], .done⟩
    | cons c cs =>
      cases hb : Text.isBlank c with
      | true =>
        obtain ⟨ps, left, h⟩ := ih cs.length (Nat.lt_succ_self _) cs rfl
        exact ⟨.blank c :: ps, left, .blank hb h⟩
      | false =>
        cases hscan : Lexeme.scan? (c :: cs) with
        | none => exact ⟨[], c :: cs, .unknown hb (Lexeme.scan?_eq_none_iff.1 hscan)⟩
        | some p =>
          obtain ⟨l, rest⟩ := p
          obtain ⟨ps, left, h⟩ := ih rest.length (Lexeme.length_lt_of_scan? hscan) rest rfl
          exact ⟨.lexeme l :: ps, left, .of_scan? hscan h⟩

theorem blanks {b : List Char} (hb : ∀ c ∈ b, Text.isBlank c = true) (h : Tiling cs ps left) :
    Tiling (b ++ cs) (b.map Piece.blank ++ ps) left := by
  induction b with
  | nil => exact h
  | cons c b ih =>
    obtain ⟨hc, hb⟩ := List.forall_mem_cons.1 hb
    exact .blank hc (ih hb)

theorem of_blank (h : ∀ c ∈ cs, Text.isBlank c = true) :
    ∃ ps, Tiling cs ps [] ∧ ps.filterMap Piece.token? = [] := by
  have htiling := blanks h .done
  rw [List.append_nil, List.append_nil] at htiling
  exact ⟨cs.map .blank, htiling, Piece.filterMap_blanks cs⟩

theorem flatMap_chars (h : Tiling cs ps left) : ps.flatMap Piece.chars ++ left = cs := by
  induction h with
  | done => rfl
  | unknown => rfl
  | blank _ _ ih => rw [List.flatMap_cons, List.append_assoc, ih]; rfl
  | lexeme happ _ _ _ ih => rw [List.flatMap_cons, List.append_assoc, ih, happ]; rfl

theorem nil_iff : Tiling [] ps left ↔ ps = [] ∧ left = [] := by
  constructor
  · intro h
    cases h with
    | done => exact ⟨rfl, rfl⟩
    | lexeme happ hl _ _ =>
      obtain ⟨c, w, hw, -⟩ := Lexeme.begins_of_wellFormed hl
      rw [hw] at happ
      cases happ
  · rintro ⟨rfl, rfl⟩
    exact .done

theorem cons_cases {c : Char} (h : Tiling (c :: cs) ps left) :
    (Text.isBlank c = true ∧ ∃ ps', ps = .blank c :: ps' ∧ Tiling cs ps' left) ∨
    (Text.isBlank c = false ∧ ∃ l rest ps', Lexeme.scan? (c :: cs) = some (l, rest) ∧
      ps = .lexeme l :: ps' ∧ Tiling rest ps' left) ∨
    (Text.isBlank c = false ∧ Lexeme.scan? (c :: cs) = none ∧ ps = [] ∧ left = c :: cs) := by
  cases h with
  | unknown hb hc => exact .inr (.inr ⟨hb, Lexeme.scan?_eq_none_iff.2 hc, rfl, rfl⟩)
  | blank hb h => exact .inl ⟨hb, _, rfl, h⟩
  | lexeme happ hl hlong h =>
    have hscan := Lexeme.scan?_eq_some_iff.2 ⟨happ, hl, hlong⟩
    obtain ⟨x, w, hw, hx⟩ := Lexeme.begins_of_wellFormed hl
    -- a blank begins no lexeme, so the two kinds of pieces exclude each other
    have hxc : c = x := by
      rw [hw] at happ
      exact (List.cons.inj happ).1
    exact .inr (.inl ⟨hxc ▸ hx.not_blank, _, _, _, hscan, rfl, h⟩)

theorem unique (h : Tiling cs ps left) (h' : Tiling cs ps' left') : ps' = ps ∧ left' = left := by
  induction h generalizing ps' left' with
  | done => exact nil_iff.1 h'
  | @unknown c cs hb hc =>
    have hnone : Lexeme.scan? (c :: cs) = none := Lexeme.scan?_eq_none_iff.2 hc
    rcases cons_cases h' with ⟨hb', -⟩ | ⟨-, l, rest, -, hscan, -⟩ | ⟨-, -, hps, hleft⟩
    · rw [hb] at hb'
      cases hb'
    · rw [hnone] at hscan
      cases hscan
    · exact ⟨hps, hleft⟩
  | blank hb _ ih =>
    rcases cons_cases h' with ⟨-, ps₁, rfl, h₁⟩ | ⟨hb', -⟩ | ⟨hb', -⟩
    · obtain ⟨rfl, rfl⟩ := ih h₁
      exact ⟨rfl, rfl⟩
    · rw [hb] at hb'
      cases hb'
    · rw [hb] at hb'
      cases hb'
  | lexeme happ hl hlong _ ih =>
    have hscan := Lexeme.scan?_eq_some_iff.2 ⟨happ, hl, hlong⟩
    obtain ⟨x, w, hw, hx⟩ := Lexeme.begins_of_wellFormed hl
    rw [hw, List.cons_append] at happ
    subst happ
    rcases cons_cases h' with ⟨hb', -⟩ | ⟨-, l₁, rest₁, ps₁, hscan', rfl, h₁⟩ | ⟨-, hnone, -⟩
    · rw [hx.not_blank] at hb'
      cases hb'
    · rw [hscan] at hscan'
      cases hscan'
      obtain ⟨rfl, rfl⟩ := ih h₁
      exact ⟨rfl, rfl⟩
    · rw [hscan] at hnone
      cases hnone

end Tiling

end ComplexCalc
