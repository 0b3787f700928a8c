/-! Sequences with brackets. The depth of a position is the number of brackets that are open there;
a closing bracket that closes nothing leaves the depth at zero. -/

namespace ComplexCalc

structure Brackets (α : Type) where
  opens : α → Bool
  closes : α → Bool

namespace Brackets
variable {α β : Type} (b : Brackets α)

def step (depth : Nat) (x : α) : Nat :=
  if b.opens x then depth + 1 else if b.closes x then depth - 1 else depth

/-- Whether, with `depth` brackets open already, every closing bracket closes one and none stays
open. -/
def balancedFrom : Nat → List α → Bool
  | depth, [] => depth == 0
  | depth, x :: xs => !(depth == 0 && b.closes x) && balancedFrom (b.step depth x) xs

def balanced (xs : List α) : Bool := b.balancedFrom 0 xs

def flip : Brackets α := ⟨b.closes, b.opens⟩

def splitFrom (sep : α → Bool) : Nat → List α → List (List α)
  | _, [] => [[]]
  | depth, x :: xs =>
    if depth == 0 && sep x then [] :: splitFrom sep 0 xs
    else (splitFrom sep (b.step depth x) xs).modifyHead (x :: ·)

def split (sep : α → Bool) (xs : List α) : List (List α) := b.splitFrom sep 0 xs

/-- The first element at depth zero that `p` accepts, between what stands before it and after it. -/
def findFrom (p : α → Option β) : Nat → List α → Option (List α × β × List α)
  | _, [] => none
  | depth, x :: xs =>
    match if depth = 0 then p x else none with
    | some y => some ([], y, xs)
    | none => (findFrom p (b.step depth x) xs).map fun r => (x :: r.1, r.2)

def find (p : α → Option β) (xs : List α) : Option (List α × β × List α) := b.findFrom p 0 xs

theorem length_le_of_mem_splitFrom {sep : α → Bool} {part : List α} :
    ∀ {depth : Nat} {xs : List α}, part ∈ b.splitFrom sep depth xs → part.length ≤ xs.length
  | _, [], h => by simp_all [splitFrom]
  | depth, x :: xs, h => by
    simp only [splitFrom] at h
    split at h
    · rcases List.mem_cons.1 h with rfl | h
      · simp
      · exact Nat.le_succ_of_le (length_le_of_mem_splitFrom h)
    · rcases hparts : b.splitFrom sep (b.step depth x) xs with _ | ⟨first, parts⟩
      · simp [hparts] at h
      · have ih {q : List α} (hq : q ∈ first :: parts) : q.length ≤ xs.length :=
          length_le_of_mem_splitFrom (hparts ▸ hq)
        rw [hparts, List.modifyHead_cons] at h
        rcases List.mem_cons.1 h with rfl | h
        · exact Nat.succ_le_succ (ih List.mem_cons_self)
        · exact Nat.le_succ_of_le (ih (List.mem_cons_of_mem _ h))

theorem length_of_findFrom {p : α → Option β} {l r : List α} {y : β} :
    ∀ {depth : Nat} {xs : List α}, b.findFrom p depth xs = some (l, y, r) →
      l.length + r.length + 1 = xs.length
  | _, [], h => by simp [findFrom] at h
  | depth, x :: xs, h => by
    simp only [findFrom] at h
    split at h
    · cases h
      simp
    · obtain ⟨⟨l', y', r'⟩, hfind, heq⟩ := Option.map_eq_some_iff.1 h
      cases heq
      have := length_of_findFrom hfind
      simp only [List.length_cons]
      omega

end Brackets

end ComplexCalc
