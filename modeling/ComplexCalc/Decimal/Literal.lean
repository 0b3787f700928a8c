import ComplexCalc.Double.Ratio

/-! Decimal literals as they are written: digits, an optional fraction and an optional exponent.
`Literal.scan?` reads the longest literal that a text starts with, and `Literal.value` is the
nearest double. What a scanner reads and what it leaves make up its input. -/

namespace ComplexCalc.Decimal

structure Exponent where
  mark : Char
  sign : Option Char
  digits : List Char
  deriving DecidableEq

structure Literal where
  whole : List Char
  fraction : Option (List Char)
  exponent : Option Exponent
  deriving DecidableEq

def Exponent.chars (e : Exponent) : List Char := e.mark :: (e.sign.toList ++ e.digits)

def Literal.chars (l : Literal) : List Char :=
  l.whole ++ (l.fraction.elim [] ('.' :: ·) ++ l.exponent.elim [] Exponent.chars)

def natOfDigits (ds : List Char) : Nat := ds.foldl (fun n d => 10 * n + (d.toNat - '0'.toNat)) 0

def Exponent.value (e : Exponent) : Int :=
  if e.sign = some '-' then -(natOfDigits e.digits : Int) else natOfDigits e.digits

def tenPow (k : Nat) : Nat := Nat.pow 10 k

/-- The double nearest to `n * 10 ^ scale`, where `n` has at most `size` digits. Below `10 ^ -330`
that is zero, and from `10 ^ 310` on it is infinite; between these the power of ten is worked out.
-/
def nearest (n size : Nat) (scale : Int) : Float :=
  if n = 0 ∨ scale + size < -330 then Double.zero
  else if 310 ≤ scale then Double.infinity
  else Double.ofRatio (n * tenPow scale.toNat) (tenPow (-scale).toNat)

def Literal.value (l : Literal) : Float :=
  let places := l.fraction.getD []
  let digits := l.whole ++ places
  nearest (natOfDigits digits) digits.length (l.exponent.elim 0 Exponent.value - places.length)

def scanDigits? (cs : List Char) : Option (List Char × List Char) :=
  match cs.takeWhile Char.isDigit with
  | [] => none
  | ds => some (ds, cs.dropWhile Char.isDigit)

def scanSign : List Char → Option Char × List Char
  | '+' :: cs => (some '+', cs)
  | '-' :: cs => (some '-', cs)
  | cs => (none, cs)

def scanFraction : List Char → Option (List Char) × List Char
  | '.' :: cs => (some (cs.takeWhile Char.isDigit), cs.dropWhile Char.isDigit)
  | cs => (none, cs)

/-- Reads an exponent; a mark that no digit follows does not begin one. -/
def Exponent.scan? : List Char → Option (Exponent × List Char)
  | [] => none
  | mark :: cs =>
    if mark = 'e' ∨ mark = 'E' then
      let sign := scanSign cs
      (scanDigits? sign.2).map fun p => (⟨mark, sign.1, p.1⟩, p.2)
    else none

def Literal.scan? (cs : List Char) : Option (Literal × List Char) :=
  (scanDigits? cs).map fun p =>
    let f := scanFraction p.2
    match Exponent.scan? f.2 with
    | none => (⟨p.1, f.1, none⟩, f.2)
    | some e => (⟨p.1, f.1, some e.1⟩, e.2)

theorem append_of_scanDigits? {cs ds rest : List Char} (h : scanDigits? cs = some (ds, rest)) :
    ds ++ rest = cs := by
  unfold scanDigits? at h
  split at h
  · simp at h
  · cases h
    exact List.takeWhile_append_dropWhile

theorem ne_nil_of_scanDigits? {cs ds rest : List Char} (h : scanDigits? cs = some (ds, rest)) :
    ds ≠ [] := by
  unfold scanDigits? at h
  split at h
  · simp at h
  · rename_i hne
    cases h
    exact hne

theorem scanSign_append (cs : List Char) : (scanSign cs).1.toList ++ (scanSign cs).2 = cs := by
  unfold scanSign
  split <;> rfl

theorem scanFraction_append (cs : List Char) :
    (scanFraction cs).1.elim [] ('.' :: ·) ++ (scanFraction cs).2 = cs := by
  unfold scanFraction
  split
  · simp [List.takeWhile_append_dropWhile]
  · rfl

theorem Exponent.append_of_scan? {cs rest : List Char} {e : Exponent}
    (h : Exponent.scan? cs = some (e, rest)) : e.chars ++ rest = cs := by
  cases cs with
  | nil => simp [Exponent.scan?] at h
  | cons mark cs =>
    simp only [Exponent.scan?] at h
    split at h
    · obtain ⟨p, hp, he⟩ := Option.map_eq_some_iff.1 h
      cases he
      simp [Exponent.chars, append_of_scanDigits? hp, scanSign_append]
    · simp at h

theorem Literal.append_of_scan? {cs rest : List Char} {l : Literal}
    (h : Literal.scan? cs = some (l, rest)) : l.chars ++ rest = cs := by
  obtain ⟨p, hp, hl⟩ := Option.map_eq_some_iff.1 h
  rw [← append_of_scanDigits? hp, ← scanFraction_append p.2]
  dsimp only at hl
  split at hl
  · cases hl
    simp [Literal.chars]
  · rename_i e he
    cases hl
    rw [← Exponent.append_of_scan? he]
    simp [Literal.chars]

theorem Literal.chars_ne_nil_of_scan? {cs rest : List Char} {l : Literal}
    (h : Literal.scan? cs = some (l, rest)) : l.chars ≠ [] := by
  obtain ⟨p, hp, hl⟩ := Option.map_eq_some_iff.1 h
  have hne := ne_nil_of_scanDigits? hp
  dsimp only at hl
  split at hl <;> cases hl <;> simp [Literal.chars, hne]

end ComplexCalc.Decimal
