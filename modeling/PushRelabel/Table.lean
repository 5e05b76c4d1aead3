/-! # Tables

A table has an entry for each number below its length. Places are such numbers, so that
entries are read and written without a check.
-/

namespace Vector

variable {α : Type} {n : Nat}

/-- Reads an entry. A place is in bounds, so no access has to prove that it is. -/
instance getElemFin : GetElem (Vector α n) (Fin n) α fun _ _ => True where
  getElem table v _ := GetElem.getElem table v.val v.isLt

@[simp] theorem getElem_fin (table : Vector α n) (v : Fin n) : table[v] = table[v.val] := rfl

/-- Writes an entry. -/
def put (table : Vector α n) (v : Fin n) (a : α) : Vector α n := table.set v.val a v.isLt

theorem getElem_replicate_fin (a : α) (v : Fin n) : (replicate n a)[v] = a :=
  getElem_replicate v.isLt

theorem ext_fin {table table' : Vector α n} (h : ∀ v : Fin n, table[v] = table'[v]) :
    table = table' := Vector.ext fun i hi => h ⟨i, hi⟩

theorem getElem_put (table : Vector α n) (v u : Fin n) (a : α) :
    (table.put v a)[u] = if u = v then a else table[u] := by
  simp only [getElem_fin, put, getElem_set, Fin.ext_iff, eq_comm]

theorem getElem_put_self (table : Vector α n) (v : Fin n) (a : α) : (table.put v a)[v] = a := by
  rw [getElem_put, if_pos rfl]

theorem getElem_put_of_ne (table : Vector α n) {v u : Fin n} (h : u ≠ v) (a : α) :
    (table.put v a)[u] = table[u] := by
  rw [getElem_put, if_neg h]

@[simp] theorem getElem_put_val (table : Vector α n) (v : Fin n) (a : α) {i : Nat} (hi : i < n) :
    (table.put v a)[i] = if v.val = i then a else table[i] := getElem_set v.isLt hi

theorem toList_put (table : Vector α n) (v : Fin n) (a : α) :
    (table.put v a).toList = table.toList.set v.val a :=
  Vector.toList_set v.isLt

theorem map_getElem_finRange (table : Vector α n) :
    (List.finRange n).map (fun v => table[v]) = table.toList :=
  List.ext_getElem (by simp) fun i _ _ => by simp

end Vector
