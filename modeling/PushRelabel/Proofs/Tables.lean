import Mathlib
import PushRelabel.Table

/-! # Tables indexed by nodes -/

namespace PushRelabel

variable {n : Nat} {α : Type}

/-- Writing the same entry at several places, one after the other. -/
theorem getElem_foldl_setIfInBounds (places : List Nat) (table : Vector α n) (a : α) (v : Fin n) :
    (places.foldl (fun table u => table.setIfInBounds u a) table)[v] =
      if v.val ∈ places then a else table[v] := by
  induction places generalizing table with
  | nil => simp
  | cons u places ih =>
      rw [List.foldl_cons, ih]
      by_cases hmem : v.val ∈ places
      · rw [if_pos hmem, if_pos (List.mem_cons_of_mem u hmem)]
      · rw [if_neg hmem, Vector.getElem_fin, Vector.getElem_setIfInBounds]
        by_cases hu : u = v.val
        · rw [if_pos hu, if_pos (hu ▸ List.mem_cons_self)]
        · have hcons : v.val ∉ u :: places := by
            simp [hmem, Ne.symm hu]
          rw [if_neg hu, if_neg hcons]
          rfl

end PushRelabel
