import ComplexCalc.Environment.Scope
import Mathlib.Data.List.Basic

/-! What a frame binds: its parameters if all of them have an argument, and never another name. -/

namespace ComplexCalc.Scope
variable {params : List String} {zs : List Number} {name : String} {s : Scope}

theorem lookup_zip_isSome (hlength : zs.length = params.length) (hname : name ∈ params) :
    ((params.zip zs).lookup name).isSome = true := by
  rw [← List.map_fst_zip (Nat.le_of_eq hlength.symm)] at hname
  obtain ⟨⟨param, z⟩, hmem, rfl⟩ := List.mem_map.1 hname
  exact List.lookup_isSome_iff.2 ⟨(param, z), hmem, beq_self_eq_true param⟩

theorem lookup_zip_eq_none (hname : name ∉ params) (zs : List Number) :
    (params.zip zs).lookup name = none := by
  refine List.lookup_eq_none_iff.2 fun p hp => bne_iff_ne.2 fun heq => hname ?_
  rw [heq]
  exact (List.of_mem_zip hp).1

theorem lookup?_frame_of_mem (hlength : zs.length = params.length) (hname : name ∈ params)
    (s : Scope) : (frame params zs s).lookup? name = (params.zip zs).lookup name :=
  Option.or_of_isSome (lookup_zip_isSome hlength hname)

theorem lookup?_frame_of_not_mem (hname : name ∉ params) (zs : List Number) (s : Scope) :
    (frame params zs s).lookup? name = s.lookup? name := by
  rw [lookup?, lookup_zip_eq_none hname, Option.none_or]

end ComplexCalc.Scope
