import ComplexCalc.Proofs.Nesting.Outermost

/-! The parts that a sequence is split into are the only ones that make it up again, have no
separator outside all brackets, and leave no bracket open but in the last part. -/

namespace ComplexCalc.Brackets
variable {α : Type} {b : Brackets α} {sep : α → Bool}

/-- Lists of parts that a sequence may be split into. The depth is counted anew in each part. -/
inductive Parts (b : Brackets α) (sep : α → Bool) : List (List α) → Prop
  | last {part : List α} : (∀ x ∈ b.exposed 0 part, sep x = false) → Parts b sep [part]
  | cons {part : List α} {parts : List (List α)} : (∀ x ∈ b.exposed 0 part, sep x = false) →
      part.foldl b.step 0 = 0 → Parts b sep parts → Parts b sep (part :: parts)

theorem Parts.ne_nil {parts : List (List α)} (h : b.Parts sep parts) : parts ≠ [] := by
  cases h <;> exact List.cons_ne_nil _ _

theorem parts_iff {parts : List (List α)} : b.Parts sep parts ↔ parts ≠ [] ∧
    (∀ part ∈ parts, ∀ x ∈ b.exposed 0 part, sep x = false) ∧
    ∀ part ∈ parts.dropLast, part.foldl b.step 0 = 0 := by
  constructor
  · intro h
    refine ⟨h.ne_nil, ?_⟩
    induction h with
    | last hpart => exact ⟨List.forall_mem_singleton.2 hpart, nofun⟩
    | cons hpart hclosed hparts ih =>
      rw [List.dropLast_cons_of_ne_nil hparts.ne_nil]
      exact ⟨List.forall_mem_cons.2 ⟨hpart, ih.1⟩, List.forall_mem_cons.2 ⟨hclosed, ih.2⟩⟩
  · rintro ⟨hne, hparts, hclosed⟩
    induction parts with
    | nil => exact absurd rfl hne
    | cons part parts ih =>
      obtain ⟨hpart, hparts⟩ := List.forall_mem_cons.1 hparts
      by_cases hlast : parts = []
      · subst hlast
        exact .last hpart
      · rw [List.dropLast_cons_of_ne_nil hlast] at hclosed
        obtain ⟨hpart', hclosed⟩ := List.forall_mem_cons.1 hclosed
        exact .cons hpart hpart' (ih hlast hparts hclosed)

theorem parts_split (xs : List α) : b.Parts sep (b.split sep xs) := by
  -- what is left after the first part is shorter
  induction hn : xs.length using Nat.strong_induction_on generalizing xs with
  | h n ih =>
    rcases b.split_first_part sep xs with ⟨hnone, heq⟩ | ⟨l, s, r, rfl, -, hl, hnone, heq⟩
    · rw [heq]
      exact .last hnone
    · have hshort : r.length < n := by
        rw [← hn, List.length_append, List.length_cons]
        omega
      rw [heq]
      exact .cons hnone hl (ih r.length hshort r rfl)

theorem split_intercalate {s : α} (hs : sep s = true) {parts : List (List α)}
    (h : b.Parts sep parts) : b.split sep ([s].intercalate parts) = parts := by
  induction h with
  | last hpart =>
    rw [List.intercalate_singleton]
    exact splitFrom_of_exposed hpart
  | cons hpart hclosed hparts ih =>
    rw [List.intercalate_cons_of_ne_nil hparts.ne_nil, List.append_assoc, List.singleton_append,
      split, splitFrom_append hs hpart hclosed]
    exact congrArg _ ih

theorem split_eq_iff {s : α} (hsep : ∀ x, sep x = true ↔ x = s) {xs : List α}
    {parts : List (List α)} :
    b.split sep xs = parts ↔ b.Parts sep parts ∧ [s].intercalate parts = xs := by
  constructor
  · rintro rfl
    exact ⟨parts_split xs, intercalate_splitFrom (fun x => (hsep x).1) 0 xs⟩
  · rintro ⟨hparts, rfl⟩
    exact split_intercalate ((hsep s).2 rfl) hparts

theorem exists_unclosed (hb : b.Proper) {d : Nat} {xs : List α} (h : 0 < xs.foldl b.step d) :
    (∃ l o r, xs = l ++ o :: r ∧ b.opens o = true ∧ (b.depth? 0 r).isSome = true) ∨
      0 < d ∧ (b.depth? (d - 1) xs).isSome = true := by
  induction xs generalizing d with
  | nil => exact .inr ⟨h, rfl⟩
  | cons x xs ih =>
    rcases ih h with ⟨l, o, r, rfl, ho, hr⟩ | ⟨hpos, hsome⟩
    · exact .inl ⟨x :: l, o, r, rfl, ho, hr⟩
    · cases d with
      | zero =>
        -- only an opening bracket leads away from depth zero
        have ho : b.opens x = true := by
          by_contra ho
          simp [step, ho] at hpos
        rw [step, if_pos ho] at hsome
        exact .inl ⟨[], x, xs, rfl, ho, hsome⟩
      | succ d =>
        have hx : ¬ (d == 0 && b.closes x) = true := by
          rw [Bool.and_eq_true, beq_iff_eq]
          rintro ⟨rfl, hc⟩
          have ho : ¬ b.opens x = true := fun ho => by simp [hb x ho] at hc
          simp [step, ho, hc] at hpos
        rw [step_add hx, Nat.add_sub_cancel] at hsome
        refine .inr ⟨d.succ_pos, ?_⟩
        rw [Nat.add_sub_cancel, depth?, if_neg hx]
        exact hsome

end ComplexCalc.Brackets
