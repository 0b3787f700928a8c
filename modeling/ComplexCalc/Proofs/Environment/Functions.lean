import ComplexCalc.Environment.Functions

/-! Looking up the overloads of a name after one of them has been defined. -/

namespace ComplexCalc.Functions
variable {fs : Functions} {name : String} {k : Nat}

theorem overload?_define (fs : Functions) (name : String) (f : UserFunction) (name' : String)
    (k : Nat) : (fs.define name f).overload? name' k =
      if name = name' ∧ f.arity = k then some f else fs.overload? name' k := by
  simp only [overload?, define, Std.TreeMap.getElem?_insert, Std.compare_eq_iff_eq]
  by_cases hname : name = name'
  · subst hname
    simp only [if_true, Option.bind_some, Std.TreeMap.getElem?_insert, Std.compare_eq_iff_eq,
      true_and, Std.TreeMap.getD_eq_getD_getElem?]
    cases fs[name]? <;> rfl
  · simp [hname]

theorem hasName_define (fs : Functions) (name : String) (f : UserFunction) (name' : String) :
    (fs.define name f).hasName name' = (name == name' || fs.hasName name') := by
  rw [hasName, Functions.define, Std.TreeMap.contains_insert, Std.compare_beq_eq_beq]
  rfl

def ByArity (fs : Functions) : Prop :=
  ∀ name k f, fs.overload? name k = some f → f.params.length = k

theorem byArity_empty : ByArity ∅ := by
  intro name k f h
  cases h

theorem ByArity.define (h : fs.ByArity) (name : String) (f : UserFunction) :
    (fs.define name f).ByArity := by
  intro name' k' f' hf'
  rw [overload?_define] at hf'
  split at hf'
  · rename_i heq
    cases hf'
    exact heq.2
  · exact h name' k' f' hf'

/-- Whether every name that has a map of overloads has an overload in it. -/
def Inhabited (fs : Functions) : Prop :=
  ∀ name, fs.hasName name = true → ∃ k, (fs.overload? name k).isSome = true

theorem inhabited_empty : Inhabited ∅ := by
  intro name h
  cases h

theorem Inhabited.define (h : fs.Inhabited) (name : String) (f : UserFunction) :
    (fs.define name f).Inhabited := by
  intro name' hname'
  rw [hasName_define, Bool.or_eq_true, beq_iff_eq] at hname'
  by_cases hname : name = name'
  · exact ⟨f.arity, by rw [overload?_define, if_pos ⟨hname, rfl⟩]; rfl⟩
  · obtain ⟨k, hk⟩ := h name' (hname'.resolve_left hname)
    exact ⟨k, by rwa [overload?_define, if_neg fun h => hname h.1]⟩

theorem Inhabited.isEmpty_eq_false (h : fs.Inhabited) {overloads : Std.TreeMap Nat UserFunction}
    (hname : fs[name]? = some overloads) : overloads.isEmpty = false := by
  have hcontains : fs.hasName name = true := by
    rw [hasName, Std.TreeMap.contains_eq_isSome_getElem?, hname]
    rfl
  obtain ⟨k, hk⟩ := h name hcontains
  rw [overload?, hname] at hk
  exact Std.TreeMap.isEmpty_eq_false_of_contains
    (Std.TreeMap.contains_eq_isSome_getElem?.trans hk)

theorem hasName_of_overload? (h : (fs.overload? name k).isSome = true) :
    fs.hasName name = true := by
  rw [hasName, Std.TreeMap.contains_eq_isSome_getElem?]
  cases hname : fs[name]? with
  | none =>
    rw [overload?, hname] at h
    cases h
  | some overloads => rfl

section Values
variable {α β : Type} {cmp : α → α → Ordering}

theorem values_eq_map_toList (t : Std.TreeMap α β cmp) : t.values = t.toList.map Prod.snd := by
  show t.foldr (fun _ b bs => b :: bs) [] = _
  rw [Std.TreeMap.foldr_eq_foldr_toList, List.foldr_cons_eq_append, List.append_nil]

theorem mem_values [Std.TransCmp cmp] [Std.LawfulEqCmp cmp] {t : Std.TreeMap α β cmp} {a : α}
    {b : β} (h : t[a]? = some b) : b ∈ t.values := by
  rw [values_eq_map_toList]
  exact List.mem_map.2 ⟨(a, b), Std.TreeMap.mem_toList_iff_getElem?_eq_some.2 h, rfl⟩

end Values

theorem mem_all_of_overload? {f : UserFunction} (h : fs.overload? name k = some f) :
    f ∈ fs.all := by
  obtain ⟨overloads, hname, hk⟩ := Option.bind_eq_some_iff.1 h
  exact List.mem_flatMap.2 ⟨overloads, mem_values hname, mem_values hk⟩

end ComplexCalc.Functions
