import Mathlib
import PushRelabel.Gap.Ordered
import PushRelabel.Table

/-! # Ordered nodes that agree with labels

An ordered list tracks labels if it is sorted, repeats nothing, and holds each node
below the sentinel with its label. The nodes above a label are then cut off by a
scan that stops at the first of them.
-/

namespace PushRelabel.Gap.Ordered

variable {sentinel n : Nat}

/-- Comes first, by label and then by node. -/
def Before (a b : Nat × Nat) : Prop := a.1 < b.1 ∨ (a.1 = b.1 ∧ a.2 < b.2)

structure Tracks (o : Ordered) (sentinel : Nat) (labels : Vector Nat n) : Prop where
  sorted : o.members.Pairwise Before
  mem_iff : ∀ a : Nat × Nat, a ∈ o.members ↔
    a.1 < sentinel ∧ ∃ h : a.2 < n, labels[a.2] = a.1

theorem precedes_iff {a b : Nat × Nat} :
    precedes a b = true ↔ a.1 < b.1 ∨ (a.1 = b.1 ∧ a.2 ≤ b.2) := by
  simp [precedes]

theorem before_of_precedes {a b : Nat × Nat} (h : precedes a b = true) (hne : a ≠ b) :
    Before a b := by
  rw [precedes_iff] at h
  rw [Ne, Prod.ext_iff] at hne
  unfold Before
  omega

theorem Before.trans {a b c : Nat × Nat} (hab : Before a b) (hbc : Before b c) : Before a c := by
  unfold Before at *
  omega

theorem Before.ne {a b : Nat × Nat} (h : Before a b) : a ≠ b := by
  rintro rfl
  unfold Before at h
  omega

theorem Tracks.isEmptyAt_iff {o : Ordered} {labels : Vector Nat n} (h : o.Tracks sentinel labels)
    {l : Nat} (hl : l < sentinel) : o.isEmptyAt l = true ↔ ∀ v : Fin n, labels[v] ≠ l := by
  simp only [isEmptyAt, List.all_eq_true, decide_eq_true_eq]
  constructor
  · intro hall v heq
    exact hall (l, v.val) ((h.mem_iff _).mpr ⟨hl, v.isLt, heq⟩) rfl
  · intro hnone a ha heq
    obtain ⟨-, hv, hlabel⟩ := (h.mem_iff a).mp ha
    exact hnone ⟨a.2, hv⟩ (hlabel.trans heq)

theorem tracks_reset (labels : Vector Nat n) :
    (reset sentinel labels.toArray).Tracks sentinel labels := by
  constructor
  · have htrans : ∀ a b c : Nat × Nat,
        precedes a b = true → precedes b c = true → precedes a c = true := by
      intro a b c hab hbc
      rw [precedes_iff] at *
      omega
    have htotal : ∀ a b : Nat × Nat, (precedes a b || precedes b a) = true := by
      intro a b
      rw [Bool.or_eq_true, precedes_iff, precedes_iff]
      omega
    -- sorting only orders the pairs weakly; strictly so since each node is in one pair
    have hnodup : (labels.toArray.toList.zipIdx.map Prod.snd).Nodup := by
      rw [List.zipIdx_map_snd]
      exact List.nodup_range'
    have hne : (reset sentinel labels.toArray).members.Nodup :=
      (List.mergeSort_perm _ _).nodup_iff.mpr (hnodup.of_map.filter _)
    have hsorted : (reset sentinel labels.toArray).members.Pairwise
        fun a b => precedes a b = true := List.pairwise_mergeSort htrans htotal _
    exact (hsorted.and hne).imp fun h => before_of_precedes h.1 h.2
  · intro a
    rw [reset, List.mem_mergeSort, List.mem_filter, decide_eq_true_eq, List.mem_zipIdx_iff_getElem?,
      List.getElem?_eq_some_iff]
    constructor
    · rintro ⟨⟨hv, heq⟩, hlt⟩
      exact ⟨hlt, by simpa using hv, by simpa using heq⟩
    · rintro ⟨hlt, hv, heq⟩
      exact ⟨⟨by simpa using hv, by simpa using heq⟩, hlt⟩

theorem sorted_insertInto (a : Nat × Nat) {l : List (Nat × Nat)} (h : l.Pairwise Before) :
    (insertInto a l).Pairwise Before := by
  induction l with
  | nil => exact List.pairwise_singleton _ a
  | cons b rest ih =>
      obtain ⟨hb, hrest⟩ := List.pairwise_cons.mp h
      unfold insertInto
      split
      next => exact h
      next hne =>
        split
        next hab =>
          have hbefore := before_of_precedes hab hne
          refine List.pairwise_cons.mpr ⟨fun c hc => ?_, h⟩
          rcases List.mem_cons.mp hc with rfl | hc
          · exact hbefore
          · exact hbefore.trans (hb c hc)
        next hab =>
          refine List.pairwise_cons.mpr ⟨fun c hc => ?_, ih hrest⟩
          rcases mem_insertInto.mp hc with rfl | hc
          · rw [precedes_iff] at hab
            unfold Before
            omega
          · exact hb c hc

/-- Whether the pair of a node was a member or not, it is none once it was erased. -/
theorem Tracks.mem_erase_iff {o : Ordered} {labels : Vector Nat n} (h : o.Tracks sentinel labels)
    (v : Fin n) (a : Nat × Nat) :
    a ∈ (if labels[v] < sentinel then o.members.erase (labels[v], v.val) else o.members) ↔
      a ∈ o.members ∧ a.2 ≠ v.val := by
  have hnodup : o.members.Nodup := h.sorted.imp Before.ne
  split
  next hold =>
    rw [hnodup.mem_erase_iff, and_comm]
    refine and_congr_right fun ha => not_congr ?_
    obtain ⟨-, hlt, heq⟩ := (h.mem_iff a).mp ha
    refine ⟨fun h => h ▸ rfl, fun hv => Prod.ext ?_ hv⟩
    simp only [← heq, Vector.getElem_fin, hv]
  next hold =>
    refine ⟨fun ha => ⟨ha, fun hv => hold ?_⟩, And.left⟩
    obtain ⟨hlt, hbound, heq⟩ := (h.mem_iff a).mp ha
    simp only [hv] at heq
    rw [Vector.getElem_fin, heq]
    exact hlt

theorem Tracks.sorted_move {o : Ordered} {labels : Vector Nat n} (h : o.Tracks sentinel labels)
    (v : Fin n) (new : Nat) :
    (o.move sentinel v labels[v] new).1.members.Pairwise Before := by
  have hsorted : (if labels[v] < sentinel then o.members.erase (labels[v], v.val)
      else o.members).Pairwise Before := by
    split
    · exact h.sorted.sublist List.erase_sublist
    · exact h.sorted
  simp only [Ordered.move]
  split
  · exact sorted_insertInto _ hsorted
  · exact hsorted

theorem Tracks.mem_move_iff {o : Ordered} {labels : Vector Nat n} (h : o.Tracks sentinel labels)
    (v : Fin n) (new : Nat) (a : Nat × Nat) :
    a ∈ (o.move sentinel v labels[v] new).1.members ↔
      (a = (new, v.val) ∧ new < sentinel) ∨ (a ∈ o.members ∧ a.2 ≠ v.val) := by
  simp only [Ordered.move]
  split
  next hnew => rw [mem_insertInto, h.mem_erase_iff, and_iff_left hnew]
  next hnew => rw [h.mem_erase_iff, or_iff_right fun hmoved => hnew hmoved.2]

theorem Tracks.move {o : Ordered} {labels : Vector Nat n} (h : o.Tracks sentinel labels)
    (v : Fin n) (new : Nat) :
    (o.move sentinel v labels[v] new).1.Tracks sentinel (labels.put v new) := by
  refine ⟨h.sorted_move v new, fun a => ?_⟩
  rw [h.mem_move_iff, h.mem_iff]
  constructor
  · rintro (⟨rfl, hnew⟩ | ⟨⟨hlt, hbound, heq⟩, hne⟩)
    · exact ⟨hnew, v.isLt, Vector.getElem_put_self labels v new⟩
    · refine ⟨hlt, hbound, ?_⟩
      rw [Vector.getElem_put_val, if_neg (Ne.symm hne)]
      exact heq
  · rintro ⟨hlt, hbound, heq⟩
    by_cases hv : a.2 = v.val
    · simp only [hv, Vector.getElem_put_val, if_pos] at heq
      exact Or.inl ⟨Prod.ext heq.symm hv, heq ▸ hlt⟩
    · rw [Vector.getElem_put_val, if_neg (Ne.symm hv)] at heq
      exact Or.inr ⟨⟨hlt, hbound, heq⟩, hv⟩

/-- In a sorted list the nodes above a label come last. -/
theorem mem_dropWhile_iff {l : List (Nat × Nat)} (h : l.Pairwise Before) (gap : Nat)
    (a : Nat × Nat) : a ∈ l.dropWhile (fun a => a.1 ≤ gap) ↔ a ∈ l ∧ gap < a.1 := by
  induction l with
  | nil => simp
  | cons b rest ih =>
      obtain ⟨hb, hrest⟩ := List.pairwise_cons.mp h
      by_cases hle : b.1 ≤ gap
      · rw [List.dropWhile_cons_of_pos (by simpa using hle), ih hrest, List.mem_cons]
        constructor
        · exact fun ⟨hmem, hgap⟩ => ⟨Or.inr hmem, hgap⟩
        · rintro ⟨rfl | hmem, hgap⟩
          · omega
          · exact ⟨hmem, hgap⟩
      · rw [List.dropWhile_cons_of_neg (by simpa using hle)]
        refine ⟨fun hmem => ⟨hmem, ?_⟩, And.left⟩
        rcases List.mem_cons.mp hmem with rfl | hmem
        · omega
        · have := hb a hmem
          unfold Before at this
          omega

theorem mem_takeWhile_iff {l : List (Nat × Nat)} (h : l.Pairwise Before) (gap : Nat)
    (a : Nat × Nat) : a ∈ l.takeWhile (fun a => a.1 ≤ gap) ↔ a ∈ l ∧ a.1 ≤ gap := by
  constructor
  · intro hmem
    exact ⟨List.takeWhile_sublist _ |>.subset hmem, by simpa using List.mem_takeWhile_imp hmem⟩
  · rintro ⟨hmem, hle⟩
    rw [← List.takeWhile_append_dropWhile (p := fun a : Nat × Nat => a.1 ≤ gap) (l := l)] at hmem
    refine (List.mem_append.mp hmem).resolve_right fun hdrop => ?_
    have := ((mem_dropWhile_iff h gap a).mp hdrop).2
    omega

theorem Tracks.mem_takeAbove_iff {o : Ordered} {labels : Vector Nat n}
    (h : o.Tracks sentinel labels) (gap : Nat) (v : Fin n) :
    v.val ∈ (o.takeAbove gap).2 ↔ gap < labels[v] ∧ labels[v] < sentinel := by
  simp only [takeAbove, List.mem_map, mem_dropWhile_iff h.sorted, h.mem_iff]
  constructor
  · rintro ⟨a, ⟨⟨hlt, hbound, heq⟩, hgap⟩, hv⟩
    simp only [hv] at heq
    rw [Vector.getElem_fin, heq]
    exact ⟨hgap, hlt⟩
  · rintro ⟨hgap, hlt⟩
    exact ⟨(labels[v], v.val), ⟨⟨hlt, v.isLt, rfl⟩, hgap⟩, rfl⟩

theorem Tracks.takeAbove {o : Ordered} {labels labels' : Vector Nat n}
    (h : o.Tracks sentinel labels) {gap : Nat}
    (hlabels : ∀ v : Fin n, labels'[v] =
      if gap < labels[v] ∧ labels[v] < sentinel then sentinel else labels[v]) :
    (o.takeAbove gap).1.Tracks sentinel labels' := by
  refine ⟨h.sorted.sublist (List.takeWhile_sublist _), fun a => ?_⟩
  simp only [Ordered.takeAbove, mem_takeWhile_iff h.sorted, h.mem_iff]
  constructor
  · rintro ⟨⟨hlt, hbound, heq⟩, hle⟩
    have hlabel := hlabels ⟨a.2, hbound⟩
    simp only [Vector.getElem_fin, heq] at hlabel
    exact ⟨hlt, hbound, by rw [hlabel, if_neg (by omega)]⟩
  · rintro ⟨hlt, hbound, heq⟩
    have hlabel := hlabels ⟨a.2, hbound⟩
    simp only [Vector.getElem_fin, heq] at hlabel
    split at hlabel
    · omega
    · exact ⟨⟨hlt, hbound, hlabel.symm⟩, by omega⟩

end PushRelabel.Gap.Ordered
