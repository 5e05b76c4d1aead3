import Mathlib
import PushRelabel.Gap.Counts
import PushRelabel.Table

/-! # Counters that agree with labels

Counters track labels if they hold the number of nodes with each label below the
sentinel. All operations on them keep this, and a counter is zero only if no node
has its label.
-/

namespace PushRelabel.Gap.Counts

variable {sentinel n : Nat}

/-- Every counter holds the number of nodes with its label. -/
def Tracks (c : Counts sentinel) (labels : Vector Nat n) : Prop :=
  ∀ l, (hl : l < sentinel) → c.counts[l] = labels.count l

theorem Tracks.isEmptyAt_iff {c : Counts sentinel} {labels : Vector Nat n} (h : c.Tracks labels)
    (l : Nat) : c.isEmptyAt l = true ↔ l < sentinel ∧ ∀ v : Fin n, labels[v] ≠ l := by
  unfold isEmptyAt
  split
  next hl =>
    rw [beq_iff_eq, h l hl, Int.natCast_eq_zero, Vector.count_eq_zero, Vector.mem_iff_getElem]
    constructor
    · intro hnot
      exact ⟨hl, fun v heq => hnot ⟨v, v.isLt, heq⟩⟩
    · rintro ⟨-, hnot⟩ ⟨v, hv, heq⟩
      exact hnot ⟨v, hv⟩ heq
  next hl => simp [hl]

theorem getElem_foldl_adjust (xs : List Nat) (c : Counts sentinel) {l : Nat} (hl : l < sentinel) :
    (xs.foldl (fun c label => c.adjust label 1) c).counts[l] = c.counts[l] + xs.count l := by
  induction xs generalizing c with
  | nil => simp
  | cons x xs ih =>
      rw [List.foldl_cons, ih, getElem_adjust, List.count_cons]
      simp only [beq_iff_eq]
      split
      · push_cast
        omega
      · push_cast
        omega

theorem tracks_reset (labels : Vector Nat n) :
    (reset labels.toArray : Counts sentinel).Tracks labels := by
  intro l hl
  rw [reset, ← Array.foldl_toList, getElem_foldl_adjust _ _ hl]
  simp [zero]

theorem Tracks.move {c : Counts sentinel} {labels : Vector Nat n} (h : c.Tracks labels) (v : Fin n)
    (new : Nat) : (c.move labels[v] new).1.Tracks (labels.put v new) := by
  intro l hl
  have hcount := h l hl
  have hset : (labels.put v new).count l = _ := Vector.count_set v.isLt
  have hmem : labels[v] = l → 0 < labels.count l := by
    intro heq
    exact Vector.count_pos_iff.mpr (heq ▸ Vector.getElem_mem v.isLt)
  simp only [Counts.move, getElem_adjust _ _ _ hl, hcount]
  rw [hset]
  simp only [beq_iff_eq, Vector.getElem_fin] at hmem ⊢
  split <;> split <;> push_cast <;> omega

theorem Tracks.clearAbove {c : Counts sentinel} {labels labels' : Vector Nat n}
    (h : c.Tracks labels) {gap : Nat}
    (hlabels : ∀ v : Fin n, labels'[v] =
      if gap < labels[v] ∧ labels[v] < sentinel then sentinel else labels[v]) :
    (c.clearAbove gap).Tracks labels' := by
  intro l hl
  have hmap : labels' = labels.map fun x => if gap < x ∧ x < sentinel then sentinel else x := by
    ext v hv
    rw [Vector.getElem_map]
    exact hlabels ⟨v, hv⟩
  simp only [Counts.clearAbove, Vector.getElem_mapIdx]
  rw [hmap, h l hl]
  split
  next hgap =>
    symm
    rw [Int.natCast_eq_zero, Vector.count_eq_zero, Vector.mem_map]
    rintro ⟨x, -, hx⟩
    split at hx <;> omega
  next hgap =>
    rw [Vector.count_eq_countP, Vector.count_eq_countP, Vector.countP_map]
    congr 1
    apply Vector.countP_congr
    intro x _
    simp only [Function.comp_apply, beq_iff_eq]
    split <;> omega

theorem mem_nodesAbove_iff {gap : Nat} {labels : Vector Nat n} (v : Fin n) :
    v.val ∈ nodesAbove gap sentinel labels.toArray ↔ gap < labels[v] ∧ labels[v] < sentinel := by
  simp [nodesAbove]

end PushRelabel.Gap.Counts
