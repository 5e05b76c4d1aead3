import PushRelabel.Table

/-! # Compressed rows

The entries of all rows of a table stand in one array, row after row, and a second array has the
places at which the rows begin. Entries that do not come row after row are counted first, which
gives the beginnings, and then each is put into the next free place of its row.
-/

namespace PushRelabel

/-- Where each of `n` rows begins among `m` entries, and where the last one ends. -/
structure Offsets (n m : Nat) where
  bounds : Vector Nat (n + 1)
  first : bounds[0] = 0
  ascending : ∀ v : Fin n, bounds[v.val] ≤ bounds[v.val + 1]
  last : bounds[n] = m

namespace Offsets

variable {n m : Nat}

theorem bounds_le (o : Offsets n m) {i j : Nat} (hij : i ≤ j) (hj : j < n + 1) :
    o.bounds[i] ≤ o.bounds[j] := by
  induction hij with
  | refl => exact Nat.le_refl _
  | @step j hij ih => exact Nat.le_trans (ih (by omega)) (o.ascending ⟨j, by omega⟩)

section Rows

variable (o : Offsets n m) (v : Fin n)

def start : Nat := o.bounds[v.val]

def stop : Nat := o.bounds[v.val + 1]

theorem stop_le : o.stop v ≤ m :=
  Nat.le_trans (o.bounds_le v.isLt (Nat.lt_succ_self n)) (Nat.le_of_eq o.last)

/-- The places of a row. -/
def row : List (Fin m) :=
  List.ofFn fun k : Fin (o.stop v - o.start v) =>
    ⟨o.start v + k, by have := o.stop_le v; omega⟩

end Rows

/-- The sums of the first numbers: of none, of one, and so on. -/
def partialSums (lengths : Vector Nat n) : Vector Nat (n + 1) :=
  ⟨(lengths.toList.scanl (· + ·) 0).toArray, by simp⟩

theorem getElem_partialSums (lengths : Vector Nat n) {i : Nat} (hi : i < n + 1) :
    (partialSums lengths)[i] = (lengths.toList.take i).foldl (· + ·) 0 := by
  simp [partialSums]

theorem partialSums_succ (lengths : Vector Nat n) {i : Nat} (hi : i < n) :
    (partialSums lengths)[i + 1] = (partialSums lengths)[i] + lengths[i] := by
  have hi : i < lengths.toList.length := by simpa using hi
  rw [getElem_partialSums, getElem_partialSums, ← List.take_append_getElem hi, List.foldl_append]
  rfl

/-- The rows have the given lengths. -/
def ofLengths (lengths : Vector Nat n) (htotal : (partialSums lengths)[n] = m) : Offsets n m where
  bounds := partialSums lengths
  first := getElem_partialSums lengths (Nat.succ_pos n)
  ascending v := by rw [partialSums_succ lengths v.isLt]; exact Nat.le_add_right _ _
  last := htotal

section Flatten

variable {α : Type} (rows : Vector (List α) n)

theorem partialSums_map_length {i : Nat} (hi : i < n + 1) :
    (partialSums (rows.map List.length))[i] = (rows.toList.take i).flatten.length := by
  rw [getElem_partialSums, List.length_flatten, List.map_take, Vector.toList_map,
    List.sum_eq_foldl]

/-- The rows of a table, one after the other. -/
def ofRows : Offsets n rows.toList.flatten.length :=
  ofLengths (rows.map List.length) (by
    rw [partialSums_map_length, List.take_of_length_le (by simp)])

theorem start_ofRows (v : Fin n) :
    (ofRows rows).start v = (rows.toList.take v).flatten.length :=
  partialSums_map_length rows _

theorem stop_ofRows (v : Fin n) :
    (ofRows rows).stop v = (ofRows rows).start v + rows[v].length := by
  refine (partialSums_succ _ v.isLt).trans ?_
  rw [Vector.getElem_map]
  rfl

private theorem getElem?_flatten (rows : List (List α)) {v : Nat} (hv : v < rows.length) {k : Nat}
    (hk : k < rows[v].length) :
    rows.flatten[(rows.take v).flatten.length + k]? = some rows[v][k] := by
  have hsplit : rows.flatten =
      (rows.take v).flatten ++ (rows[v] ++ (rows.drop (v + 1)).flatten) := by
    conv => lhs; rw [← List.take_append_drop v rows, List.drop_eq_getElem_cons hv]
    rw [List.flatten_append, List.flatten_cons]
  rw [hsplit, List.getElem?_append_right (Nat.le_add_right _ _), Nat.add_sub_cancel_left,
    List.getElem?_append_left hk, List.getElem?_eq_getElem hk]

/-- Each row has its own entries. -/
theorem map_row_ofRows (v : Fin n) :
    ((ofRows rows).row v).map (fun i => rows.toList.flatten[i]) = rows[v] := by
  have hlength : (((ofRows rows).row v).map fun i => rows.toList.flatten[i]).length =
      rows[v].length := by
    rw [List.length_map, row, List.length_ofFn, stop_ofRows, Nat.add_sub_cancel_left]
  refine List.ext_getElem hlength fun k _ hk => ?_
  have hentry := getElem?_flatten rows.toList (v := v) (by simp) hk
  rw [← start_ofRows] at hentry
  simp only [row, List.getElem_map, List.getElem_ofFn]
  exact (List.getElem_eq_iff _).mpr hentry

end Flatten

/-- How many entries have each key. -/
def counts (keys : List (Fin n)) : Vector Nat n :=
  keys.foldl (fun counts (v : Fin n) => counts.put v (counts[v] + 1)) (Vector.replicate n 0)

private theorem total_set_succ (numbers : List Nat) {i : Nat} (hi : i < numbers.length) :
    (numbers.set i (numbers[i] + 1)).foldl (· + ·) 0 = numbers.foldl (· + ·) 0 + 1 := by
  simp only [← List.sum_eq_foldl]
  induction numbers generalizing i with
  | nil => exact nomatch hi
  | cons k numbers ih =>
      cases i with
      | zero =>
          simp only [List.set_cons_zero, List.getElem_cons_zero, List.sum_cons]
          omega
      | succ i =>
          have hi := Nat.lt_of_succ_lt_succ hi
          simp only [List.set_cons_succ, List.getElem_cons_succ, List.sum_cons, ih hi]
          omega

theorem total_counts (keys : List (Fin n)) :
    (counts keys).toList.foldl (· + ·) 0 = keys.length := by
  have hfold : ∀ table : Vector Nat n,
      (keys.foldl (fun counts (v : Fin n) => counts.put v (counts[v] + 1)) table).toList.foldl
          (· + ·) 0 = table.toList.foldl (· + ·) 0 + keys.length := by
    induction keys with
    | nil => exact fun table => rfl
    | cons v keys ih =>
        intro table
        have hv : v.val < table.toList.length := by simp
        have hstep : (table.put v (table[v] + 1)).toList.foldl (· + ·) 0 =
            table.toList.foldl (· + ·) 0 + 1 := by
          rw [Vector.toList_put]
          exact total_set_succ table.toList hv
        rw [List.foldl_cons, ih, hstep, List.length_cons]
        omega
  rw [counts, hfold, ← List.sum_eq_foldl]
  simp

/-- Rows that are as long as entries with the given keys need. -/
def ofKeys (keys : List (Fin n)) (hlength : keys.length = m) : Offsets n m :=
  ofLengths (counts keys) (by
    rw [getElem_partialSums, List.take_of_length_le (by simp), total_counts, hlength])

end Offsets

/-- The next free place of each row, and what was put into the places. -/
structure Filling (n m : Nat) (α : Type) where
  next : Vector Nat n
  places : Vector α m

namespace Filling

variable {n m : Nat} {α : Type}

def put (key : α → Fin n) : Filling n m α → α → Filling n m α
  | ⟨next, places⟩, a =>
      let place := next[key a]
      ⟨next.put (key a) (place + 1), places.setIfInBounds place a⟩

/-- Puts each entry into the next free place of its row. -/
def fill (o : Offsets n m) (key : α → Fin n) (blank : Vector α m) (entries : List α) :
    Filling n m α :=
  entries.foldl (put key) ⟨Vector.ofFn o.start, blank⟩

end Filling

end PushRelabel
