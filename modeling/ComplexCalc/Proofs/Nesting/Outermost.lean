import ComplexCalc.Proofs.Nesting.Depth

/-! What finding and splitting at the outermost level give: both are decided by the exposed
elements, and on a balanced run every part is balanced again. -/

namespace ComplexCalc.Brackets
variable {α β : Type} {b : Brackets α}

theorem exists_depth?_of_append {d e : Nat} {xs ys : List α}
    (h : b.depth? d (xs ++ ys) = some e) :
    ∃ m, b.depth? d xs = some m ∧ b.depth? m ys = some e := by
  rw [depth?_append] at h
  exact Option.bind_eq_some_iff.1 h

theorem depth?_sides {l r : List α} {x : α} (hx : b.Plain x)
    (h : b.depth? 0 (l ++ x :: r) = some 0) (hl : l.foldl b.step 0 = 0) :
    b.depth? 0 l = some 0 ∧ b.depth? 0 r = some 0 := by
  obtain ⟨m, hm, hrest⟩ := exists_depth?_of_append h
  obtain rfl : 0 = m := hl.symm.trans (foldl_step_of_depth? hm)
  rw [depth?_cons_plain hx] at hrest
  exact ⟨hm, hrest⟩

theorem mem_exposed_flip_reverse (hb : b.Proper) {xs : List α} (h : b.depth? 0 xs = some 0) {x : α}
    (hx : b.Plain x) (hmem : x ∈ b.exposed 0 xs) : x ∈ b.flip.exposed 0 xs.reverse := by
  obtain ⟨l, r, rfl, hl⟩ := mem_exposed_iff.1 hmem
  have hr := depth?_reverse_flip hb (depth?_sides hx h hl).2
  exact mem_exposed_iff.2 ⟨r.reverse, l.reverse, by simp, foldl_step_of_depth? hr⟩

theorem mem_exposed_of_flip_reverse (hb : b.Proper) {xs : List α} (h : b.depth? 0 xs = some 0)
    {x : α} (hx : b.Plain x) (hmem : x ∈ b.flip.exposed 0 xs.reverse) : x ∈ b.exposed 0 xs := by
  have hflip := mem_exposed_flip_reverse hb.flip (depth?_reverse_flip hb h) hx.flip hmem
  rwa [List.reverse_reverse] at hflip

section Find
variable {p : α → Option β}

theorem findFrom_eq_none_iff {d : Nat} {xs : List α} :
    b.findFrom p d xs = none ↔ ∀ x ∈ b.exposed d xs, p x = none := by
  induction xs generalizing d with
  | nil => simp [findFrom, exposed]
  | cons x xs ih =>
    by_cases hd : d = 0
    · cases hp : p x <;> simp [findFrom, exposed, hd, hp, ih]
    · simp [findFrom, exposed, hd, ih]

theorem findFrom_eq_some_iff {d : Nat} {xs l r : List α} {y : β} :
    b.findFrom p d xs = some (l, y, r) ↔ ∃ x, xs = l ++ x :: r ∧ l.foldl b.step d = 0 ∧
      p x = some y ∧ ∀ z ∈ b.exposed d l, p z = none := by
  induction xs generalizing d l with
  | nil => simp [findFrom]
  | cons x xs ih =>
    cases hq : if d = 0 then p x else none with
    | some y' =>
      obtain ⟨hd, hp⟩ : d = 0 ∧ p x = some y' := by simpa using hq
      simp only [findFrom, hq]
      constructor
      · intro h
        cases h
        exact ⟨x, rfl, hd, hp, by simp [exposed]⟩
      · rintro ⟨x', heq, -, hx', hnone⟩
        cases l with
        | nil =>
          obtain ⟨rfl, rfl⟩ := List.cons.inj heq
          simp_all
        | cons z l =>
          obtain ⟨rfl, rfl⟩ := List.cons.inj heq
          have := hnone x (by simp [exposed, hd])
          simp_all
    | none =>
      simp only [findFrom, hq, Option.map_eq_some_iff]
      constructor
      · rintro ⟨⟨l', y', r'⟩, hfind, heq⟩
        cases heq
        obtain ⟨x', rfl, hl, hx', hnone⟩ := ih.1 hfind
        refine ⟨x', rfl, hl, hx', fun z hz => ?_⟩
        by_cases hd : d = 0
        · rw [exposed, if_pos hd] at hz
          rcases List.mem_cons.1 hz with rfl | hz
          · simpa [hd] using hq
          · exact hnone z hz
        · rw [exposed, if_neg hd] at hz
          exact hnone z hz
      · rintro ⟨x', heq, hl, hx', hnone⟩
        cases l with
        | nil =>
          obtain ⟨rfl, rfl⟩ := List.cons.inj heq
          have hd : d = 0 := hl
          simp_all
        | cons z l =>
          obtain ⟨rfl, rfl⟩ := List.cons.inj heq
          have hrest : ∀ w ∈ b.exposed (b.step d x) l, p w = none :=
            fun w hw => hnone w (mem_exposed_cons hw)
          exact ⟨(l, y, r), ih.2 ⟨x', rfl, hl, hx', hrest⟩, rfl⟩

end Find

section Split
variable {sep : α → Bool}

theorem forall_exposed_eq_false_iff {s : α} (hsep : ∀ x, sep x = true ↔ x = s) {d : Nat}
    {xs : List α} : (∀ x ∈ b.exposed d xs, sep x = false) ↔ s ∉ b.exposed d xs := by
  simp only [← Bool.not_eq_true, hsep]
  exact ⟨fun h hs => h s hs rfl, fun h x hx heq => h (heq ▸ hx)⟩

theorem not_split_at_head {d : Nat} {x : α} {xs : List α}
    (h : ∀ z ∈ b.exposed d (x :: xs), sep z = false) : (d == 0 && sep x) = false := by
  by_cases hd : d = 0
  · simp [hd, h x (by simp [exposed, hd])]
  · simp [hd]

theorem splitFrom_of_exposed {d : Nat} {xs : List α} (h : ∀ x ∈ b.exposed d xs, sep x = false) :
    b.splitFrom sep d xs = [xs] := by
  induction xs generalizing d with
  | nil => rfl
  | cons x xs ih =>
    have hrest : ∀ z ∈ b.exposed (b.step d x) xs, sep z = false :=
      fun z hz => h z (mem_exposed_cons hz)
    rw [splitFrom, not_split_at_head h, if_neg Bool.false_ne_true, ih hrest]
    rfl

theorem splitFrom_append {d : Nat} {xs ys : List α} {s : α} (hs : sep s = true)
    (h : ∀ x ∈ b.exposed d xs, sep x = false) (hd : xs.foldl b.step d = 0) :
    b.splitFrom sep d (xs ++ s :: ys) = xs :: b.splitFrom sep 0 ys := by
  induction xs generalizing d with
  | nil =>
    obtain rfl : d = 0 := hd
    simp [splitFrom, hs]
  | cons x xs ih =>
    have hrest : ∀ z ∈ b.exposed (b.step d x) xs, sep z = false :=
      fun z hz => h z (mem_exposed_cons hz)
    rw [List.cons_append, splitFrom, not_split_at_head h, if_neg Bool.false_ne_true, ih hrest hd]
    rfl

theorem splitFrom_ne_nil (d : Nat) (xs : List α) : b.splitFrom sep d xs ≠ [] := by
  induction xs generalizing d with
  | nil => exact List.cons_ne_nil _ _
  | cons x xs ih =>
    rw [splitFrom]
    split
    · exact List.cons_ne_nil _ _
    · exact mt List.modifyHead_eq_nil_iff.1 (ih _)

theorem intercalate_splitFrom {s : α} (hsep : ∀ x, sep x = true → x = s) (d : Nat) (xs : List α) :
    [s].intercalate (b.splitFrom sep d xs) = xs := by
  induction xs generalizing d with
  | nil => rfl
  | cons x xs ih =>
    rw [splitFrom]
    split
    · rename_i hx
      rw [Bool.and_eq_true] at hx
      rw [List.intercalate_cons_of_ne_nil (splitFrom_ne_nil 0 xs), ih, hsep x hx.2,
        List.nil_append, List.singleton_append]
    · have hrest := ih (b.step d x)
      have hne : b.splitFrom sep (b.step d x) xs ≠ [] := splitFrom_ne_nil _ _
      obtain ⟨part, parts, hparts⟩ := List.exists_cons_of_ne_nil hne
      rw [hparts] at hrest ⊢
      rw [List.modifyHead_cons, List.intercalate_cons_cons_left, hrest]

theorem infix_of_mem_intercalate {xs part : List α} {parts : List (List α)} (h : part ∈ parts) :
    part <:+: xs.intercalate parts := by
  induction parts with
  | nil => cases h
  | cons first parts ih =>
    by_cases hne : parts = []
    · rw [hne, List.mem_singleton] at h
      rw [hne, List.intercalate_singleton]
      exact h ▸ List.infix_rfl
    · rw [List.intercalate_cons_of_ne_nil hne]
      rcases List.mem_cons.1 h with rfl | h
      · rw [List.append_assoc]
        exact (List.prefix_append _ _).isInfix
      · exact (ih h).trans (List.suffix_append _ _).isInfix

theorem infix_of_mem_split {s : α} (hsep : ∀ x, sep x = true → x = s) {xs part : List α}
    (h : part ∈ b.split sep xs) : part <:+: xs := by
  have hjoined : [s].intercalate (b.split sep xs) = xs := intercalate_splitFrom hsep 0 xs
  rw [← hjoined]
  exact infix_of_mem_intercalate h

/-- Where no bracket is open, a sequence may be cut into two that are split on their own. Its parts
are those of the two, the last of one and the first of the other being joined. -/
theorem exists_splitFrom_append (hsep : ∀ x, sep x = true → b.Plain x) {d : Nat} {xs : List α}
    (hd : xs.foldl b.step d = 0) :
    ∃ before part, b.splitFrom sep d xs = before ++ [part] ∧
      ∀ ys, b.splitFrom sep d (xs ++ ys) =
        before ++ (b.split sep ys).modifyHead (part ++ ·) := by
  induction xs generalizing d with
  | nil =>
    obtain rfl : d = 0 := hd
    exact ⟨[], [], rfl, fun ys => (congrFun List.modifyHead_id _).symm⟩
  | cons x xs ih =>
    rw [List.foldl_cons] at hd
    obtain ⟨before, part, hxs, hys⟩ := ih hd
    simp only [List.cons_append, splitFrom]
    split
    · rename_i hx
      rw [Bool.and_eq_true, beq_iff_eq] at hx
      rw [(hsep x hx.2).step, hx.1] at hxs hys
      refine ⟨[] :: before, part, by rw [hxs, List.cons_append], fun ys => ?_⟩
      rw [hys, List.cons_append]
    · cases before with
      | nil =>
        refine ⟨[], x :: part, by rw [hxs]; rfl, fun ys => ?_⟩
        rw [hys, List.nil_append, List.nil_append, List.modifyHead_modifyHead]
        rfl
      | cons first before =>
        refine ⟨(x :: first) :: before, part, by rw [hxs]; rfl, fun ys => ?_⟩
        rw [hys]
        rfl

theorem splitFrom_append_cons (hsep : ∀ x, sep x = true → b.Plain x) {s : α} (hs : sep s = true)
    {d : Nat} {xs : List α} (hd : xs.foldl b.step d = 0) (ys : List α) :
    b.splitFrom sep d (xs ++ s :: ys) = b.splitFrom sep d xs ++ b.splitFrom sep 0 ys := by
  obtain ⟨before, part, hxs, hys⟩ := exists_splitFrom_append hsep hd
  have hempty : b.split sep (s :: ys) = [] :: b.splitFrom sep 0 ys := by simp [split, splitFrom, hs]
  rw [hys, hxs, hempty, List.modifyHead_cons, List.append_nil, List.append_assoc,
    List.singleton_append]

theorem split_first_part (b : Brackets α) (sep : α → Bool) (xs : List α) :
    ((∀ x ∈ b.exposed 0 xs, sep x = false) ∧ b.split sep xs = [xs]) ∨
      ∃ l s r, xs = l ++ s :: r ∧ sep s = true ∧ l.foldl b.step 0 = 0 ∧
        (∀ x ∈ b.exposed 0 l, sep x = false) ∧ b.split sep xs = l :: b.split sep r := by
  cases hfind : b.findFrom (fun x => if sep x then some x else none) 0 xs with
  | none =>
    have hnone : ∀ x ∈ b.exposed 0 xs, sep x = false := by
      simpa using findFrom_eq_none_iff.1 hfind
    exact .inl ⟨hnone, splitFrom_of_exposed hnone⟩
  | some found =>
    obtain ⟨l, y, r⟩ := found
    obtain ⟨s, rfl, hl, hs, hnone⟩ := findFrom_eq_some_iff.1 hfind
    have hs : sep s = true := by
      by_contra hns
      simp [hns] at hs
    have hnone : ∀ x ∈ b.exposed 0 l, sep x = false := by simpa using hnone
    exact .inr ⟨l, s, r, rfl, hs, hl, hnone, splitFrom_append hs hnone hl⟩

theorem split_cases (hsep : ∀ x, sep x = true → b.Plain x) {xs : List α}
    (h : b.depth? 0 xs = some 0) :
    ((∀ x ∈ b.exposed 0 xs, sep x = false) ∧ b.split sep xs = [xs]) ∨
      ∃ l s r, xs = l ++ s :: r ∧ sep s = true ∧ b.depth? 0 l = some 0 ∧ b.depth? 0 r = some 0 ∧
        (∀ x ∈ b.exposed 0 l, sep x = false) ∧ b.split sep xs = l :: b.split sep r := by
  rcases b.split_first_part sep xs with hself | ⟨l, s, r, rfl, hs, hl, hnone, heq⟩
  · exact .inl hself
  · -- the depth is zero at the separator, so neither side borrows a bracket from the other
    obtain ⟨hbl, hbr⟩ := depth?_sides (hsep s hs) h hl
    exact .inr ⟨l, s, r, rfl, hs, hbl, hbr, hnone, heq⟩

theorem depth?_of_mem_split (hsep : ∀ x, sep x = true → b.Plain x) {xs part : List α}
    (h : b.depth? 0 xs = some 0) (hmem : part ∈ b.split sep xs) : b.depth? 0 part = some 0 := by
  induction hn : xs.length using Nat.strong_induction_on generalizing xs with
  | h n ih =>
    rcases split_cases hsep h with ⟨-, heq⟩ | ⟨l, s, r, rfl, -, hl, hr, -, heq⟩
    · rw [heq, List.mem_singleton] at hmem
      exact hmem ▸ h
    · rw [heq] at hmem
      rcases List.mem_cons.1 hmem with rfl | hmem
      · exact hl
      · refine ih r.length ?_ hr hmem rfl
        simp only [← hn, List.length_append, List.length_cons]
        omega

end Split

end ComplexCalc.Brackets
