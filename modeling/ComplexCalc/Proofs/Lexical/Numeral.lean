import ComplexCalc.Decimal.Literal
import Mathlib.Data.List.TakeWhile

/-! The texts of decimal literals, `D+ ( . D* )? ( (e|E) (+|-)? D+ )?`, and what the scanner makes
of them: a literal is read back whenever the text after it cannot prolong it, and what is read is
the longest literal that the text starts with. -/

namespace ComplexCalc.Decimal
variable {cs ds r rest : List Char}

structure Exponent.WellFormed (e : Exponent) : Prop where
  mark : e.mark = 'e' ∨ e.mark = 'E'
  sign : ∀ s ∈ e.sign, s = '+' ∨ s = '-'
  ne_nil : e.digits ≠ []
  digits : ∀ c ∈ e.digits, c.isDigit = true

structure Literal.WellFormed (l : Literal) : Prop where
  ne_nil : l.whole ≠ []
  whole : ∀ c ∈ l.whole, c.isDigit = true
  fraction : ∀ ds ∈ l.fraction, ∀ c ∈ ds, c.isDigit = true
  exponent : ∀ e ∈ l.exponent, e.WellFormed

/-- Whether a text after a literal leaves the literal as it is. -/
structure Literal.Ends (l : Literal) (rest : List Char) : Prop where
  digit : ∀ c ∈ rest.head?, c.isDigit = false
  exponent : l.exponent = none → Exponent.scan? rest = none
  point : l.fraction = none → l.exponent = none → rest.head? ≠ some '.'

theorem Exponent.WellFormed.mark_ne_point {e : Exponent} (h : e.WellFormed) : e.mark ≠ '.' := by
  rcases h.mark with h | h <;> rw [h] <;> decide

theorem Exponent.WellFormed.mark_not_digit {e : Exponent} (h : e.WellFormed) :
    e.mark.isDigit = false := by
  rcases h.mark with h | h <;> rw [h] <;> decide

theorem takeWhile_digits (h : ∀ c ∈ rest.head?, c.isDigit = false) :
    rest.takeWhile Char.isDigit = [] := by
  cases rest with
  | nil => rfl
  | cons c rest => simp [h c rfl]

theorem dropWhile_digits (h : ∀ c ∈ rest.head?, c.isDigit = false) :
    rest.dropWhile Char.isDigit = rest := by
  cases rest with
  | nil => rfl
  | cons c rest => simp [h c rfl]

theorem digits_of_scanDigits? (h : scanDigits? cs = some (ds, rest)) :
    ∀ c ∈ ds, c.isDigit = true := by
  unfold scanDigits? at h
  split at h
  · cases h
  · cases h
    exact fun c hc => List.mem_takeWhile_imp hc

theorem scanDigits?_append (hne : ds ≠ []) (hds : ∀ c ∈ ds, c.isDigit = true) (r : List Char) :
    scanDigits? (ds ++ r) = some (ds ++ r.takeWhile Char.isDigit, r.dropWhile Char.isDigit) := by
  obtain ⟨d, ds, rfl⟩ := List.exists_cons_of_ne_nil hne
  unfold scanDigits?
  rw [List.takeWhile_append_of_pos hds, List.dropWhile_append_of_pos hds]
  rfl

theorem scanDigits?_append_of_end (hne : ds ≠ []) (hds : ∀ c ∈ ds, c.isDigit = true)
    (h : ∀ c ∈ r.head?, c.isDigit = false) : scanDigits? (ds ++ r) = some (ds, r) := by
  rw [scanDigits?_append hne hds, takeWhile_digits h, dropWhile_digits h, List.append_nil]

theorem scanSign_append_digits {sign : Option Char} (hs : ∀ s ∈ sign, s = '+' ∨ s = '-')
    (hne : ds ≠ []) (hds : ∀ c ∈ ds, c.isDigit = true) :
    scanSign (sign.toList ++ (ds ++ r)) = (sign, ds ++ r) := by
  cases sign with
  | some s => rcases hs s rfl with rfl | rfl <;> rfl
  | none =>
    obtain ⟨d, ds, rfl⟩ := List.exists_cons_of_ne_nil hne
    have hd := hds d List.mem_cons_self
    simp only [Option.toList_none, List.nil_append, List.cons_append]
    unfold scanSign
    split
    · simp_all
    · simp_all
    · rfl

theorem Exponent.scan?_append {e : Exponent} (he : e.WellFormed) (r : List Char) :
    Exponent.scan? (e.chars ++ r) =
      some (⟨e.mark, e.sign, e.digits ++ r.takeWhile Char.isDigit⟩, r.dropWhile Char.isDigit) := by
  simp only [Exponent.chars, List.cons_append, List.append_assoc, Exponent.scan?, if_pos he.mark,
    scanSign_append_digits he.sign he.ne_nil he.digits, scanDigits?_append he.ne_nil he.digits,
    Option.map_some]

theorem Exponent.scan?_append_of_end {e : Exponent} (he : e.WellFormed)
    (h : ∀ c ∈ r.head?, c.isDigit = false) : Exponent.scan? (e.chars ++ r) = some (e, r) := by
  rw [Exponent.scan?_append he, takeWhile_digits h, dropWhile_digits h, List.append_nil]

theorem scanFraction_of_ne_point (h : cs.head? ≠ some '.') : scanFraction cs = (none, cs) := by
  unfold scanFraction
  split
  · simp at h
  · rfl

theorem Literal.Ends.tail {l : Literal} (hl : l.WellFormed) (hr : l.Ends r) :
    (∀ c ∈ (l.exponent.elim [] Exponent.chars ++ r).head?, c.isDigit = false) ∧
      (l.fraction = none → (l.exponent.elim [] Exponent.chars ++ r).head? ≠ some '.') := by
  cases he : l.exponent with
  | none => exact ⟨hr.digit, fun hf => hr.point hf he⟩
  | some e =>
    have hwf := hl.exponent e he
    exact ⟨by simpa [Exponent.chars] using hwf.mark_not_digit,
      fun _ => by simpa [Exponent.chars] using hwf.mark_ne_point⟩

theorem Literal.Ends.scan?_exponent {l : Literal} (hl : l.WellFormed) (hr : l.Ends r) :
    Exponent.scan? (l.exponent.elim [] Exponent.chars ++ r) = l.exponent.map (·, r) := by
  cases he : l.exponent with
  | none => exact hr.exponent he
  | some e => exact Exponent.scan?_append_of_end (hl.exponent e he) hr.digit

theorem Literal.scan?_append {l : Literal} (hl : l.WellFormed) (hr : l.Ends r) :
    Literal.scan? (l.chars ++ r) = some (l, r) := by
  obtain ⟨hdigit, hpoint⟩ := hr.tail hl
  have hscan := hr.scan?_exponent hl
  obtain ⟨w, f, e⟩ := l
  have hfraction : scanFraction (f.elim [] ('.' :: ·) ++ (e.elim [] Exponent.chars ++ r)) =
      (f, e.elim [] Exponent.chars ++ r) := by
    cases f with
    | none => exact scanFraction_of_ne_point (hpoint rfl)
    | some ds =>
      have hds := hl.fraction ds rfl
      simp only [Option.elim_some, List.cons_append, scanFraction,
        List.takeWhile_append_of_pos hds, List.dropWhile_append_of_pos hds,
        takeWhile_digits hdigit, dropWhile_digits hdigit, List.append_nil]
  have hwhole : scanDigits? (w ++ (f.elim [] ('.' :: ·) ++ (e.elim [] Exponent.chars ++ r))) =
      some (w, f.elim [] ('.' :: ·) ++ (e.elim [] Exponent.chars ++ r)) := by
    refine scanDigits?_append_of_end hl.ne_nil hl.whole ?_
    cases f with
    | none => exact hdigit
    | some ds => simp
  simp only [Literal.chars, List.append_assoc, Literal.scan?, hwhole, Option.map_some, hfraction,
    hscan]
  cases e <;> rfl

theorem Exponent.wellFormed_of_scan? {e : Exponent} (h : Exponent.scan? cs = some (e, rest)) :
    e.WellFormed := by
  cases cs with
  | nil => simp [Exponent.scan?] at h
  | cons mark cs =>
    simp only [Exponent.scan?] at h
    split at h
    · rename_i hmark
      obtain ⟨⟨ds, r⟩, hp, he⟩ := Option.map_eq_some_iff.1 h
      cases he
      have hne := ne_nil_of_scanDigits? hp
      have hsign : ∀ s ∈ (scanSign cs).1, s = '+' ∨ s = '-' := by
        unfold scanSign
        split <;> simp
      exact ⟨hmark, hsign, hne, digits_of_scanDigits? hp⟩
    · simp at h

theorem Literal.wellFormed_of_scan? {l : Literal} (h : Literal.scan? cs = some (l, rest)) :
    l.WellFormed := by
  obtain ⟨⟨ds, r⟩, hp, hl⟩ := Option.map_eq_some_iff.1 h
  have hfraction : ∀ fs ∈ (scanFraction r).1, ∀ c ∈ fs, c.isDigit = true := by
    unfold scanFraction
    split
    · intro fs hfs c hc
      cases hfs
      exact List.mem_takeWhile_imp hc
    · simp
  have hne := ne_nil_of_scanDigits? hp
  have hds := digits_of_scanDigits? hp
  dsimp only at hl
  split at hl
  · cases hl
    exact ⟨hne, hds, hfraction, by simp⟩
  · rename_i e he
    cases hl
    refine ⟨hne, hds, hfraction, fun e' he' => ?_⟩
    cases he'
    exact Exponent.wellFormed_of_scan? he

theorem Literal.whole_of_scan? {l : Literal} (h : Literal.scan? cs = some (l, rest)) :
    l.whole = cs.takeWhile Char.isDigit := by
  obtain ⟨⟨ds, r⟩, hp, hl⟩ := Option.map_eq_some_iff.1 h
  have hds : ds = cs.takeWhile Char.isDigit := by
    unfold scanDigits? at hp
    split at hp
    · cases hp
    · cases hp
      rfl
  dsimp only at hl
  split at hl <;> cases hl <;> exact hds

theorem Literal.length_whole_le (l : Literal) : l.whole.length ≤ l.chars.length := by
  simp [Literal.chars]

theorem Literal.length_le_of_scan? {l l' : Literal} (hl' : l'.WellFormed)
    (h : Literal.scan? (l'.chars ++ r) = some (l, rest)) : l'.chars.length ≤ l.chars.length := by
  obtain ⟨w, f, e⟩ := l'
  -- a digit after the literal prolongs its last part, so the scan is worked out part by part
  rcases f with _ | ds <;> rcases e with _ | e
  · have hle := l.length_whole_le
    rw [Literal.whole_of_scan? h] at hle
    simp only [Literal.chars, Option.elim_none, List.append_nil,
      List.takeWhile_append_of_pos hl'.whole, List.length_append] at hle ⊢
    omega
  · have he := hl'.exponent e rfl
    have hw : scanDigits? (w ++ (e.chars ++ r)) = some (w, e.chars ++ r) :=
      scanDigits?_append_of_end hl'.ne_nil hl'.whole
        (by simpa [Exponent.chars] using he.mark_not_digit)
    have hf : scanFraction (e.chars ++ r) = (none, e.chars ++ r) :=
      scanFraction_of_ne_point (by simpa [Exponent.chars] using he.mark_ne_point)
    simp only [Literal.chars, Option.elim_none, Option.elim_some, List.nil_append,
      List.append_assoc, Literal.scan?, hw, Option.map_some, hf, Exponent.scan?_append he,
      Option.some.injEq, Prod.mk.injEq] at h
    simp [← h.1, Literal.chars, Exponent.chars]
  · have hds := hl'.fraction ds rfl
    have hw : scanDigits? (w ++ '.' :: (ds ++ r)) = some (w, '.' :: (ds ++ r)) :=
      scanDigits?_append_of_end hl'.ne_nil hl'.whole (by simp)
    simp only [Literal.chars, Option.elim_none, Option.elim_some, List.append_nil,
      List.append_assoc, List.cons_append, Literal.scan?, hw, Option.map_some, scanFraction,
      List.takeWhile_append_of_pos hds] at h
    split at h <;> cases h <;> simp [Literal.chars]
  · have hds := hl'.fraction ds rfl
    have he := hl'.exponent e rfl
    have hdigit : ∀ c ∈ (e.chars ++ r).head?, c.isDigit = false := by
      simpa [Exponent.chars] using he.mark_not_digit
    have hw : scanDigits? (w ++ '.' :: (ds ++ (e.chars ++ r))) =
        some (w, '.' :: (ds ++ (e.chars ++ r))) :=
      scanDigits?_append_of_end hl'.ne_nil hl'.whole (by simp)
    simp only [Literal.chars, Option.elim_some, List.append_assoc, List.cons_append, Literal.scan?,
      hw, Option.map_some, scanFraction, List.takeWhile_append_of_pos hds,
      List.dropWhile_append_of_pos hds, takeWhile_digits hdigit, dropWhile_digits hdigit,
      List.append_nil, Exponent.scan?_append he, Option.some.injEq, Prod.mk.injEq] at h
    simp [← h.1, Literal.chars, Exponent.chars]

theorem Literal.ends_nil (l : Literal) : l.Ends [] :=
  ⟨by simp, fun _ => rfl, by simp⟩

theorem Literal.eq_of_chars {l l' : Literal} (hl : l.WellFormed) (hl' : l'.WellFormed)
    (h : l.chars = l'.chars) : l = l' := by
  have hscan := Literal.scan?_append hl l.ends_nil
  rw [h, Literal.scan?_append hl' l'.ends_nil] at hscan
  exact (congrArg Prod.fst (Option.some.inj hscan)).symm

theorem Literal.scan?_isSome_iff : (Literal.scan? cs).isSome = true ↔
    ∃ c ∈ cs.head?, c.isDigit = true := by
  rw [Literal.scan?, Option.isSome_map, scanDigits?]
  cases cs with
  | nil => simp
  | cons c cs => cases hc : c.isDigit <;> simp [hc]

end ComplexCalc.Decimal
