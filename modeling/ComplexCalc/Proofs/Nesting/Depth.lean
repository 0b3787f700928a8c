import ComplexCalc.Nesting
import Mathlib.Data.List.Basic
import Mathlib.Data.Nat.Init

/-! The depth along a sequence with brackets, read from either end. On a balanced sequence both
readings agree, and the subtraction that a closing bracket causes never stops at zero. -/

namespace ComplexCalc.Brackets
variable {α : Type} {b : Brackets α}

def Proper (b : Brackets α) : Prop := ∀ x, b.opens x = true → b.closes x = false

def Plain (b : Brackets α) (x : α) : Prop := b.opens x = false ∧ b.closes x = false

/-- The depth after a run, unless some closing bracket of it closes nothing. -/
def depth? (b : Brackets α) : Nat → List α → Option Nat
  | d, [] => some d
  | d, x :: xs => if d == 0 && b.closes x then none else b.depth? (b.step d x) xs

/-- The elements of a run that stand outside all brackets; an opening bracket does so itself. -/
def exposed (b : Brackets α) : Nat → List α → List α
  | _, [] => []
  | d, x :: xs => if d = 0 then x :: b.exposed (b.step d x) xs else b.exposed (b.step d x) xs

theorem Plain.step {x : α} (h : b.Plain x) (d : Nat) : b.step d x = d := by
  simp [Brackets.step, h.1, h.2]

theorem Plain.flip {x : α} (h : b.Plain x) : b.flip.Plain x := ⟨h.2, h.1⟩

theorem Proper.flip (h : b.Proper) : b.flip.Proper := by
  intro x hx
  by_contra hc
  have := h x (by simpa [Brackets.flip] using hc)
  simp_all [Brackets.flip]

theorem balancedFrom_eq_true_iff {d : Nat} {xs : List α} :
    b.balancedFrom d xs = true ↔ b.depth? d xs = some 0 := by
  induction xs generalizing d with
  | nil => simp [balancedFrom, depth?]
  | cons x xs ih =>
    rw [balancedFrom, depth?]
    cases hc : d == 0 && b.closes x <;> simp [ih]

theorem balanced_eq_true_iff {xs : List α} : b.balanced xs = true ↔ b.depth? 0 xs = some 0 :=
  balancedFrom_eq_true_iff

theorem depth?_append (d : Nat) (xs ys : List α) :
    b.depth? d (xs ++ ys) = (b.depth? d xs).bind (b.depth? · ys) := by
  induction xs generalizing d with
  | nil => rfl
  | cons x xs ih =>
    rw [List.cons_append, depth?, depth?]
    split
    · rfl
    · exact ih _

theorem depth?_append_of_eq {d e : Nat} {xs : List α} (h : b.depth? d xs = some e) (ys : List α) :
    b.depth? d (xs ++ ys) = b.depth? e ys := by
  rw [depth?_append, h, Option.bind_some]

theorem depth?_cons_plain {x : α} (hx : b.Plain x) (d : Nat) (xs : List α) :
    b.depth? d (x :: xs) = b.depth? d xs := by
  simp [depth?, hx.step, hx.2]

theorem depth?_of_plain {xs : List α} (h : ∀ x ∈ xs, b.Plain x) (d : Nat) :
    b.depth? d xs = some d := by
  induction xs with
  | nil => rfl
  | cons x xs ih =>
    obtain ⟨hx, hxs⟩ := List.forall_mem_cons.1 h
    rw [depth?_cons_plain hx, ih hxs]

theorem step_add {d : Nat} {x : α} (hx : ¬ (d == 0 && b.closes x) = true) (k : Nat) :
    b.step (d + k) x = b.step d x + k := by
  cases hc : b.closes x <;> simp_all [step] <;> split <;> omega

theorem depth?_add {d e : Nat} {xs : List α} (h : b.depth? d xs = some e) (k : Nat) :
    b.depth? (d + k) xs = some (e + k) := by
  induction xs generalizing d with
  | nil => simpa [depth?] using h
  | cons x xs ih =>
    rw [depth?] at h
    split at h
    · cases h
    · rename_i hx
      have hx' : (d + k == 0 && b.closes x) = false := by
        cases hc : b.closes x <;> simp_all
      rw [depth?, hx', if_neg Bool.false_ne_true, step_add hx]
      exact ih h

theorem foldl_step_of_depth? {d e : Nat} {xs : List α} (h : b.depth? d xs = some e) :
    xs.foldl b.step d = e := by
  induction xs generalizing d with
  | nil => simpa [depth?] using h
  | cons x xs ih =>
    rw [depth?] at h
    split at h
    · cases h
    · exact ih h

theorem depth?_singleton_flip (hb : b.Proper) {d e : Nat} {x : α} :
    b.depth? d [x] = some e ↔ b.flip.depth? e [x] = some d := by
  have hx := hb x
  cases ho : b.opens x <;> cases hc : b.closes x <;>
    simp_all [depth?, step, Brackets.flip] <;> omega

theorem depth?_reverse_flip (hb : b.Proper) {d e : Nat} {xs : List α}
    (h : b.depth? d xs = some e) : b.flip.depth? e xs.reverse = some d := by
  induction xs generalizing d with
  | nil =>
    cases h
    rfl
  | cons x xs ih =>
    -- the first element is the last one from the other side, and leads back from there
    have hsplit : b.depth? d ([x] ++ xs) = some e := h
    rw [depth?_append] at hsplit
    obtain ⟨m, hm, hrest⟩ := Option.bind_eq_some_iff.1 hsplit
    rw [List.reverse_cons, depth?_append_of_eq (ih hrest)]
    exact (depth?_singleton_flip hb).1 hm

theorem mem_exposed_cons {d : Nat} {x z : α} {xs : List α} (h : z ∈ b.exposed (b.step d x) xs) :
    z ∈ b.exposed d (x :: xs) := by
  rw [exposed]
  split
  · exact List.mem_cons_of_mem _ h
  · exact h

theorem exposed_append (d : Nat) (xs ys : List α) :
    b.exposed d (xs ++ ys) = b.exposed d xs ++ b.exposed (xs.foldl b.step d) ys := by
  induction xs generalizing d with
  | nil => rfl
  | cons x xs ih =>
    simp only [List.cons_append, exposed, List.foldl_cons]
    split <;> simp [ih]

theorem exposed_append_of_depth? {xs : List α} (h : b.depth? 0 xs = some 0) (ys : List α) :
    b.exposed 0 (xs ++ ys) = b.exposed 0 xs ++ b.exposed 0 ys := by
  rw [exposed_append, foldl_step_of_depth? h]

theorem exposed_cons_plain {x : α} (hx : b.Plain x) (xs : List α) :
    b.exposed 0 (x :: xs) = x :: b.exposed 0 xs := by
  simp [exposed, hx.step]

theorem mem_exposed_iff {d : Nat} {x : α} {xs : List α} :
    x ∈ b.exposed d xs ↔ ∃ l r, xs = l ++ x :: r ∧ l.foldl b.step d = 0 := by
  induction xs generalizing d with
  | nil => simp [exposed]
  | cons y ys ih =>
    constructor
    · intro h
      by_cases hd : d = 0
      · simp only [exposed, hd, if_true, List.mem_cons] at h
        rcases h with rfl | h
        · exact ⟨[], ys, rfl, hd⟩
        · obtain ⟨l, r, rfl, hl⟩ := ih.1 h
          exact ⟨y :: l, r, rfl, by simpa [hd] using hl⟩
      · simp only [exposed, hd, if_false] at h
        obtain ⟨l, r, rfl, hl⟩ := ih.1 h
        exact ⟨y :: l, r, rfl, hl⟩
    · rintro ⟨l, r, heq, hl⟩
      cases l with
      | nil =>
        obtain ⟨rfl, rfl⟩ := List.cons.inj heq
        have hd : d = 0 := hl
        simp [exposed, hd]
      | cons z l =>
        obtain ⟨rfl, rfl⟩ := List.cons.inj heq
        exact mem_exposed_cons (ih.2 ⟨l, r, rfl, hl⟩)

theorem exposed_succ {d e : Nat} {xs : List α} (h : b.depth? d xs = some e) :
    b.exposed (d + 1) xs = [] := by
  induction xs generalizing d with
  | nil => rfl
  | cons x xs ih =>
    rw [depth?] at h
    split at h
    · cases h
    · rename_i hx
      rw [exposed, if_neg (Nat.succ_ne_zero d), step_add hx]
      exact ih h

section Group
variable {o c : α} {inner : List α}

theorem depth?_group (ho : b.opens o = true) (hoc : b.closes o = false) (hc : b.closes c = true)
    (hco : b.opens c = false) (h : b.depth? 0 inner = some 0) :
    b.depth? 0 (o :: (inner ++ [c])) = some 0 := by
  have hinner : b.depth? 1 inner = some 1 := depth?_add h 1
  rw [depth?, hoc, Bool.and_false, if_neg Bool.false_ne_true, step, if_pos ho,
    depth?_append_of_eq hinner]
  simp [depth?, step, hc, hco]

theorem exposed_group (ho : b.opens o = true) (h : b.depth? 0 inner = some 0) :
    b.exposed 0 (o :: (inner ++ [c])) = [o] := by
  have hinner : inner.foldl b.step 1 = 1 := foldl_step_of_depth? (depth?_add h 1)
  rw [exposed, if_pos rfl, step, if_pos ho, exposed_append, exposed_succ h, hinner]
  simp [exposed]

end Group

end ComplexCalc.Brackets
