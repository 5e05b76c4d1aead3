import Mathlib
import PushRelabel.FlowGraph

/-! # Rows and their entries

The rows of a table part its entries: each place is in one row. If each row of a table has as much
room as there are entries with its key, filling it puts every entry into the row of its key, in the
order in which the entries came. So the darts of a node are those of its arcs, in the order of the
arcs.
-/

namespace PushRelabel

variable {n m : Nat}

namespace Offsets

variable {o : Offsets n m}

theorem mem_row_iff {v : Fin n} {i : Fin m} :
    i ∈ o.row v ↔ o.start v ≤ i.val ∧ i.val < o.stop v := by
  rw [row, List.mem_ofFn]
  constructor
  · rintro ⟨k, rfl⟩
    have hk := k.isLt
    exact ⟨Nat.le_add_right _ _, by dsimp only; omega⟩
  · rintro ⟨hstart, hstop⟩
    exact ⟨⟨i.val - o.start v, by omega⟩, Fin.ext (Nat.add_sub_cancel' hstart)⟩

theorem length_row (v : Fin n) : (o.row v).length = o.stop v - o.start v := List.length_ofFn

theorem pairwise_row (v : Fin n) : (o.row v).Pairwise (· < ·) :=
  List.pairwise_ofFn.mpr fun _ _ hlt => Nat.add_lt_add_left hlt _

theorem stop_le_start {v w : Fin n} (hlt : v < w) : o.stop v ≤ o.start w :=
  o.bounds_le hlt (by omega)

/-- Rows do not overlap. -/
theorem ne_of_rows_ne {v w : Fin n} (hne : v ≠ w) {i j : Nat} (hi : o.start v ≤ i ∧ i < o.stop v)
    (hj : o.start w ≤ j ∧ j < o.stop w) : i ≠ j := by
  rcases lt_or_gt_of_ne hne with hlt | hlt
  · exact (hi.2.trans_le ((stop_le_start hlt).trans hj.1)).ne
  · exact (hj.2.trans_le ((stop_le_start hlt).trans hi.1)).ne'

theorem exists_mem_row (o : Offsets n m) (i : Fin m) : ∃ v, i ∈ o.row v := by
  -- induction on the number of the rows that are considered
  have hrows : ∀ k (hk : k < n + 1), i.val < o.bounds[k] → ∃ v, i ∈ o.row v := by
    intro k
    induction k with
    | zero => exact fun _ hlt => absurd (o.first ▸ hlt) (Nat.not_lt_zero _)
    | succ k ih =>
        intro hk hlt
        by_cases hbefore : i.val < o.bounds[k]
        · exact ih (by omega) hbefore
        · exact ⟨⟨k, by omega⟩, mem_row_iff.mpr ⟨not_lt.mp hbefore, hlt⟩⟩
  exact hrows n (Nat.lt_succ_self n) (o.last.symm ▸ i.isLt)

/-- Row after row, the places are all places in order. -/
theorem flatMap_row (o : Offsets n m) : (List.finRange n).flatMap o.row = List.finRange m := by
  have hascending : ((List.finRange n).flatMap o.row).Pairwise (· < ·) := by
    refine List.pairwise_flatMap.mpr ⟨fun v _ => pairwise_row v,
      (List.sortedLT_finRange n).pairwise.imp fun hlt i hi j hj => ?_⟩
    exact ((mem_row_iff.mp hi).2.trans_le (stop_le_start hlt)).trans_le (mem_row_iff.mp hj).1
  refine hascending.eq_of_mem_iff (List.sortedLT_finRange m).pairwise fun i => ?_
  obtain ⟨v, hv⟩ := o.exists_mem_row i
  exact iff_of_true (List.mem_flatMap.mpr ⟨v, List.mem_finRange v, hv⟩) (List.mem_finRange i)

/-- If the entries of each row have its key, the row has all entries with this key. -/
theorem row_eq_filter {key : Fin m → Fin n} (hkey : ∀ v, ∀ i ∈ o.row v, key i = v) (v : Fin n) :
    o.row v = (List.finRange m).filter fun i => key i = v := by
  refine (pairwise_row v).eq_of_mem_iff ((List.sortedLT_finRange m).pairwise.filter _) fun i => ?_
  rw [List.mem_filter, decide_eq_true_eq]
  constructor
  · exact fun hi => ⟨List.mem_finRange i, hkey v i hi⟩
  · rintro ⟨-, rfl⟩
    obtain ⟨w, hw⟩ := o.exists_mem_row i
    rwa [hkey w i hw]

theorem getElem_counts (keys : List (Fin n)) (v : Fin n) : (counts keys)[v] = keys.count v := by
  have hfold : ∀ table : Vector Nat n,
      (keys.foldl (fun counts (u : Fin n) => counts.put u (counts[u] + 1)) table)[v] =
        table[v] + keys.count v := by
    induction keys with
    | nil => exact fun table => rfl
    | cons u keys ih =>
        intro table
        rw [List.foldl_cons, ih, List.count_cons]
        by_cases h : u = v
        · subst h
          rw [Vector.getElem_put_self, beq_self_eq_true, if_pos rfl]
          omega
        · rw [Vector.getElem_put_of_ne _ (Ne.symm h), beq_false_of_ne h]
          simp
  rw [counts, hfold, Vector.getElem_fin, Vector.getElem_replicate, Nat.zero_add]

theorem stop_ofKeys (keys : List (Fin n)) (hlength : keys.length = m) (v : Fin n) :
    (ofKeys keys hlength).stop v = (ofKeys keys hlength).start v + keys.count v :=
  (partialSums_succ _ v.isLt).trans (congrArg _ (getElem_counts keys v))

end Offsets

namespace Filling

variable {α : Type} {o : Offsets n m} {key : α → Fin n}

/-- What holds after some entries were put into their rows. -/
structure Filled (o : Offsets n m) (key : α → Fin n) (done : List α) (s : Filling n m α) :
    Prop where
  next_eq : ∀ v, s.next[v] = o.start v + (done.filter (key · = v)).length
  places_eq : ∀ v k a, (done.filter (key · = v))[k]? = some a → s.places[o.start v + k]? = some a

theorem Filled.put {done : List α} {s : Filling n m α} (h : Filled o key done s) {a : α}
    (hroom : ∀ v, o.start v + ((done ++ [a]).filter (key · = v)).length ≤ o.stop v) :
    Filled o key (done ++ [a]) (s.put key a) := by
  rcases s with ⟨next, places⟩
  have hown : (done ++ [a]).filter (key · = key a) = done.filter (key · = key a) ++ [a] := by
    simp [List.filter_append]
  have hother : ∀ v, key a ≠ v →
      (done ++ [a]).filter (key · = v) = done.filter (key · = v) := fun v hv => by
    simp [List.filter_append, hv]
  have hfree : next[key a] = o.start (key a) + (done.filter (key · = key a)).length :=
    h.next_eq (key a)
  have hin := hroom (key a)
  rw [hown, List.length_append, List.length_singleton] at hin
  constructor
  · intro v
    by_cases hv : key a = v
    · subst hv
      rw [hown, List.length_append, ← Nat.add_assoc, ← hfree]
      exact Vector.getElem_put_self _ _ _
    · rw [hother v hv, ← h.next_eq]
      exact Vector.getElem_put_of_ne _ (Ne.symm hv) _
  · intro v k b hk
    change (places.setIfInBounds next[key a] a)[o.start v + k]? = some b
    have hlt := (List.getElem?_eq_some_iff.mp hk).1
    have hbefore := hroom v
    -- the place that is written is the last one of the row of the entry, and in no other row
    by_cases hv : key a = v
    · subst hv
      rw [hown] at hk hlt hbefore
      rw [List.length_append, List.length_singleton] at hlt
      by_cases hlast : k = (done.filter (key · = key a)).length
      · subst hlast
        rw [List.getElem?_concat_length] at hk
        rw [← hfree, Vector.getElem?_setIfInBounds_self_of_lt, hk]
        have := o.stop_le (key a)
        omega
      · rw [Vector.getElem?_setIfInBounds_ne (by omega)]
        rw [List.getElem?_append_left (by omega)] at hk
        exact h.places_eq _ k b hk
    · rw [hother v hv] at hk hlt hbefore
      have hne : next[key a] ≠ o.start v + k :=
        Offsets.ne_of_rows_ne (o := o) hv ⟨by omega, by omega⟩ ⟨by omega, by omega⟩
      rw [Vector.getElem?_setIfInBounds_ne hne]
      exact h.places_eq v k b hk

theorem filled_fill (blank : Vector α m) {entries : List α}
    (hsize : ∀ v, o.stop v = o.start v + (entries.filter (key · = v)).length) :
    Filled o key entries (fill o key blank entries) := by
  have hrun : ∀ rest done s, done ++ rest = entries → Filled o key done s →
      Filled o key entries (rest.foldl (put key) s) := by
    intro rest
    induction rest with
    | nil => exact fun done s heq h => by rwa [← heq, List.append_nil]
    | cons a rest ih =>
        intro done s heq h
        have heq' : (done ++ [a]) ++ rest = entries := by rw [List.append_assoc]; exact heq
        refine ih (done ++ [a]) _ heq' (h.put fun v => ?_)
        rw [hsize, ← heq', List.filter_append (done ++ [a]) rest, List.length_append]
        omega
  refine hrun entries [] _ rfl ⟨fun v => ?_, fun v k a hk => nomatch hk⟩
  exact Vector.getElem_ofFn _

/-- Each row gets the entries with its key, in their order. -/
theorem map_row_fill (blank : Vector α m) {entries : List α}
    (hsize : ∀ v, o.stop v = o.start v + (entries.filter (key · = v)).length) (v : Fin n) :
    ((o.row v).map fun i => (fill o key blank entries).places[i]) =
      entries.filter (key · = v) := by
  have hlength : ((o.row v).map fun i => (fill o key blank entries).places[i]).length =
      (entries.filter (key · = v)).length := by
    rw [List.length_map, Offsets.length_row, hsize, Nat.add_sub_cancel_left]
  refine List.ext_getElem hlength fun k _ hk => ?_
  have hentry := (filled_fill blank hsize).places_eq v k _ (List.getElem?_eq_getElem hk)
  simp only [Offsets.row, List.getElem_map, List.getElem_ofFn]
  exact Vector.getElem_eq_iff.mpr hentry

end Filling

/-! ## The arcs of each node -/

theorem Dart.backwards_eq {K : Type} {arcs : Vector (Link n K) m} {outgoing : Offsets n m}
    (htail : ∀ v, ∀ i ∈ outgoing.row v, arcs[i].tail = v) :
    backwards outgoing = (List.finRange m).map fun i => ⟨arcs[i].tail, i, true⟩ := by
  rw [backwards, ← outgoing.flatMap_row, List.map_flatMap]
  refine List.flatMap_congr fun v _ => List.map_congr_left fun i hi => ?_
  rw [htail v i hi]

namespace FlowGraph

variable {K : Type} (g : FlowGraph K)

theorem leaving_eq (v : g.Node) :
    g.leaving v = ((List.finRange g.arcCount).filter (fun i => g.arcs[i].tail = v)).map
      (fun i => ⟨g.arcs[i].head, i, false⟩) := by
  rw [leaving, Offsets.row_eq_filter g.tail_of_mem_row]

theorem entering_eq (v : g.Node) :
    g.entering v = ((List.finRange g.arcCount).filter (fun i => g.arcs[i].head = v)).map
      (fun i => ⟨g.arcs[i].tail, i, true⟩) := by
  have hentries := Dart.backwards_eq g.tail_of_mem_row
  have hkeys : g.arcs.toList.map Link.head =
      (Dart.backwards g.outgoing).map fun d => g.arcs[d.arc].head := by
    rw [hentries, List.map_map, ← Vector.map_getElem_finRange, List.map_map]
    rfl
  have hsize : ∀ v, (Dart.incoming g.arcs).stop v = (Dart.incoming g.arcs).start v +
      ((Dart.backwards g.outgoing).filter fun d => g.arcs[d.arc].head = v).length := fun v => by
    refine (Offsets.stop_ofKeys _ _ v).trans (congrArg _ ?_)
    rw [hkeys, List.count_eq_countP, List.countP_map, List.countP_eq_length_filter]
    rfl
  rw [entering, g.incoming_eq, g.byHead_eq]
  refine (Filling.map_row_fill _ hsize v).trans ?_
  rw [hentries, List.filter_map]
  rfl

end FlowGraph

end PushRelabel
