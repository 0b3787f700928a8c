import ComplexCalc.Proofs.Nesting.Parts
import Mathlib.Data.List.Induction

/-! The positions of a sequence with brackets, and the depth that a reader from the start and one
from the end count there. On a balanced sequence the two agree wherever there is no bracket, and no
bracket that lowers the depth finds it at zero. -/

namespace ComplexCalc.Brackets
variable {α : Type} {b : Brackets α} {xs : List α} {i : Nat} {x : α}

def depthAt (b : Brackets α) (xs : List α) (i : Nat) : Nat := (xs.take i).foldl b.step 0

/-- The same for a reader from the end, to whom a closing bracket opens. -/
def depthFromEnd (b : Brackets α) (xs : List α) (i : Nat) : Nat :=
  (xs.drop (i + 1)).reverse.foldl b.flip.step 0

def ExposedAt (b : Brackets α) (xs : List α) (i : Nat) (x : α) : Prop :=
  xs[i]? = some x ∧ b.depthAt xs i = 0

instance [DecidableEq α] : Decidable (b.ExposedAt xs i x) :=
  inferInstanceAs (Decidable (_ ∧ _))

theorem eq_append_of_getElem? (hx : xs[i]? = some x) : xs = xs.take i ++ x :: xs.drop (i + 1) := by
  obtain ⟨hi, rfl⟩ := List.getElem?_eq_some_iff.1 hx
  rw [List.getElem_cons_drop, List.take_append_drop]

theorem depthAt_length_append (l r : List α) :
    b.depthAt (l ++ r) l.length = l.foldl b.step 0 := by
  rw [depthAt, List.take_left]

theorem depthAt_append {l : List α} (hl : b.depth? 0 l = some 0) (r : List α) (i : Nat) :
    b.depthAt (l ++ r) (l.length + i) = b.depthAt r i := by
  rw [depthAt, List.take_length_add_append, List.foldl_append, foldl_step_of_depth? hl, depthAt]

theorem mem_exposed_iff_exposedAt : x ∈ b.exposed 0 xs ↔ ∃ i, b.ExposedAt xs i x := by
  rw [mem_exposed_iff]
  constructor
  · rintro ⟨l, r, rfl, hl⟩
    exact ⟨l.length, by simp, (depthAt_length_append l _).trans hl⟩
  · rintro ⟨i, hx, hdepth⟩
    exact ⟨xs.take i, xs.drop (i + 1), eq_append_of_getElem? hx, hdepth⟩

theorem not_mem_exposed_iff : x ∉ b.exposed 0 xs ↔ ∀ i, ¬ b.ExposedAt xs i x := by
  rw [mem_exposed_iff_exposedAt, not_exists]

/-- What stands at a position of a balanced sequence closes no bracket too many, and leads from the
depth of the one reader to that of the other. -/
theorem step_depthAt (hb : b.Proper) (h : b.depth? 0 xs = some 0) (hx : xs[i]? = some x) :
    (b.closes x = true → 0 < b.depthAt xs i) ∧ b.depthFromEnd xs i = b.step (b.depthAt xs i) x := by
  rw [eq_append_of_getElem? hx] at h
  obtain ⟨d, hd, hrest⟩ := exists_depth?_of_append h
  obtain rfl : b.depthAt xs i = d := foldl_step_of_depth? hd
  rw [depth?] at hrest
  split at hrest
  · cases hrest
  · rename_i hopen
    refine ⟨fun hc => Nat.pos_of_ne_zero fun hzero => hopen ?_, ?_⟩
    · rw [hzero, hc]
      rfl
    · exact foldl_step_of_depth? (depth?_reverse_flip hb hrest)

theorem depthAt_pos (hb : b.Proper) (h : b.depth? 0 xs = some 0) (hx : xs[i]? = some x)
    (hc : b.closes x = true) : 0 < b.depthAt xs i :=
  (step_depthAt hb h hx).1 hc

theorem depthFromEnd_pos (hb : b.Proper) (h : b.depth? 0 xs = some 0) (hx : xs[i]? = some x)
    (ho : b.opens x = true) : 0 < b.depthFromEnd xs i := by
  rw [(step_depthAt hb h hx).2, step, if_pos ho]
  exact Nat.succ_pos _

theorem depthFromEnd_eq_depthAt (hb : b.Proper) (h : b.depth? 0 xs = some 0)
    (hx : xs[i]? = some x) (hplain : b.Plain x) : b.depthFromEnd xs i = b.depthAt xs i := by
  rw [(step_depthAt hb h hx).2, hplain.step]

section Append
variable {l r : List α} {s : α}

theorem exposedAt_append_cons_left (hi : i < l.length) :
    b.ExposedAt (l ++ s :: r) i x ↔ b.ExposedAt l i x := by
  rw [ExposedAt, ExposedAt, List.getElem?_append_left hi, depthAt, depthAt,
    List.take_append_of_le_length (Nat.le_of_lt hi)]

theorem exposedAt_append_cons_right (hl : b.depth? 0 l = some 0) (hs : b.Plain s) :
    b.ExposedAt (l ++ s :: r) (l.length + 1 + i) x ↔ b.ExposedAt r i x := by
  have hconcat : b.depth? 0 (l ++ [s]) = some 0 := by
    rw [depth?_append_of_eq hl, depth?_cons_plain hs, depth?]
  have hlen : l.length + 1 = (l ++ [s]).length := by simp
  rw [List.append_cons, hlen, ExposedAt, depthAt_append hconcat,
    List.getElem?_append_right (Nat.le_add_right _ _), Nat.add_sub_cancel_left]
  exact Iff.rfl

theorem exposedAt_append_cons_iff (hl : b.depth? 0 l = some 0) (hs : b.Plain s) :
    b.ExposedAt (l ++ s :: r) i x ↔ b.ExposedAt l i x ∨ (i = l.length ∧ x = s) ∨
      ∃ k, i = l.length + 1 + k ∧ b.ExposedAt r k x := by
  constructor
  · intro h
    rcases Nat.lt_trichotomy i l.length with hi | rfl | hi
    · exact .inl ((exposedAt_append_cons_left hi).1 h)
    · have hx : s = x := by simpa using h.1
      exact .inr (.inl ⟨rfl, hx.symm⟩)
    · obtain ⟨k, rfl⟩ := Nat.exists_eq_add_of_le (Nat.succ_le_of_lt hi)
      exact .inr (.inr ⟨k, rfl, (exposedAt_append_cons_right hl hs).1 h⟩)
  · rintro (h | ⟨rfl, rfl⟩ | ⟨k, rfl, h⟩)
    · exact (exposedAt_append_cons_left (List.getElem?_eq_some_iff.1 h.1).1).2 h
    · exact ⟨by simp, (depthAt_length_append l _).trans (foldl_step_of_depth? hl)⟩
    · exact (exposedAt_append_cons_right hl hs).2 h

end Append

theorem count_exposed [DecidableEq α] (b : Brackets α) (xs : List α) (x : α) :
    (b.exposed 0 xs).count x = (List.range xs.length).countP fun i => b.ExposedAt xs i x := by
  -- from the end of the sequence, so that the depth at the other positions stays as it is
  induction xs using List.reverseRecOn with
  | nil => rfl
  | append_singleton xs y ih =>
    have hbefore : (List.range xs.length).countP (fun i => b.ExposedAt (xs ++ [y]) i x) =
        (List.range xs.length).countP fun i => b.ExposedAt xs i x := by
      refine List.countP_congr fun i hi => ?_
      rw [decide_eq_true_iff, decide_eq_true_iff]
      exact exposedAt_append_cons_left (List.mem_range.1 hi)
    have hlast : (b.exposed (xs.foldl b.step 0) [y]).count x =
        [xs.length].countP fun i => b.ExposedAt (xs ++ [y]) i x := by
      have hexposed : b.ExposedAt (xs ++ [y]) xs.length x ↔ y = x ∧ xs.foldl b.step 0 = 0 := by
        rw [ExposedAt, depthAt_length_append]
        simp
      simp only [exposed, List.countP_singleton, decide_eq_true_eq, hexposed]
      by_cases hd : xs.foldl b.step 0 = 0 <;> simp [hd, List.count_singleton]
    rw [exposed_append, List.count_append, List.length_append, List.length_singleton,
      List.range_succ, List.countP_append, hbefore, ← ih, hlast]

section Split
variable {sep : α → Bool} {s : α}

theorem length_splitFrom (hsep : ∀ x, sep x = true → b.Plain x) (d : Nat) (xs : List α) :
    (b.splitFrom sep d xs).length = (b.exposed d xs).countP sep + 1 := by
  induction xs generalizing d with
  | nil => rfl
  | cons x xs ih =>
    rw [splitFrom, exposed]
    by_cases hd : d = 0
    · cases hx : sep x with
      | true => simp [hd, hx, (hsep x hx).step, ih]
      | false => simp [hd, hx, ih]
    · simp [hd, ih]

theorem length_split [DecidableEq α] (hsep : ∀ x, sep x = true ↔ x = s) (hs : b.Plain s)
    (xs : List α) :
    (b.split sep xs).length = ((List.range xs.length).countP fun i => b.ExposedAt xs i s) + 1 := by
  have hplain (x : α) (hx : sep x = true) : b.Plain x := (hsep x).1 hx ▸ hs
  have hcount : (b.exposed 0 xs).countP sep = (b.exposed 0 xs).count s :=
    List.countP_congr fun x _ => by rw [hsep, beq_iff_eq]
  rw [split, length_splitFrom hplain, hcount, count_exposed]

theorem split_eq_iff_of_balanced (hsep : ∀ x, sep x = true ↔ x = s) (hs : b.Plain s)
    (h : b.depth? 0 xs = some 0) {parts : List (List α)} :
    b.split sep xs = parts ↔ parts ≠ [] ∧ [s].intercalate parts = xs ∧
      ∀ part ∈ parts, b.depth? 0 part = some 0 ∧ ∀ i, ¬ b.ExposedAt part i s := by
  have hplain (x : α) (hx : sep x = true) : b.Plain x := (hsep x).1 hx ▸ hs
  constructor
  · intro hsplit
    obtain ⟨hparts, hjoin⟩ := (split_eq_iff hsep).1 hsplit
    obtain ⟨hne, hnone, -⟩ := parts_iff.1 hparts
    refine ⟨hne, hjoin, fun part hpart => ⟨?_, ?_⟩⟩
    · exact depth?_of_mem_split hplain h (hsplit ▸ hpart)
    · exact not_mem_exposed_iff.1 ((forall_exposed_eq_false_iff hsep).1 (hnone part hpart))
  · rintro ⟨hne, hjoin, hparts⟩
    have hproper : b.Parts sep parts := by
      refine parts_iff.2 ⟨hne, fun part hpart => ?_, fun part hpart => ?_⟩
      · exact (forall_exposed_eq_false_iff hsep).2 (not_mem_exposed_iff.2 (hparts part hpart).2)
      · exact foldl_step_of_depth? (hparts part (List.dropLast_subset parts hpart)).1
    exact (split_eq_iff hsep).2 ⟨hproper, hjoin⟩

end Split

end ComplexCalc.Brackets
