import PushRelabel.Gap.Detector
import PushRelabel.Proofs.Gap.Buckets
import PushRelabel.Proofs.Gap.Counts
import PushRelabel.Proofs.Gap.Ordered

/-! # Detectors that agree with labels

Whatever a detector keeps, it reports a gap exactly when the last node has left a
label below the sentinel, and it takes out exactly the nodes above a label.
-/

namespace PushRelabel.GapDetector

variable {n : Nat}

/-- What a detector keeps agrees with the labels of all nodes. -/
def Tracks (d : GapDetector n) (labels : Vector Nat n) : Prop :=
  match d with
  | none => True
  | counts c => c.Tracks labels
  | buckets b => b.Tracks labels
  | sortedSet o => o.Tracks n labels

theorem tracks_reset (d : GapDetector n) (labels : Vector Nat n) :
    (d.reset labels.toArray).Tracks labels := by
  cases d with
  | none => trivial
  | counts c => exact Gap.Counts.tracks_reset labels
  | buckets b => exact Gap.Buckets.tracks_reset b labels
  | sortedSet o => exact Gap.Ordered.tracks_reset labels

theorem Tracks.move {d : GapDetector n} {labels : Vector Nat n} (h : d.Tracks labels) (v : Fin n)
    (new : Nat) : (d.move v labels[v] new).1.Tracks (labels.put v new) := by
  cases d with
  | none => trivial
  | counts c => exact Gap.Counts.Tracks.move h v new
  | buckets b => exact Gap.Buckets.Tracks.move h v new
  | sortedSet o => exact Gap.Ordered.Tracks.move h v new

/-- A gap is reported exactly when no node is left at the old label. -/
theorem Tracks.move_emptied_iff {d : GapDetector n} {labels : Vector Nat n} (h : d.Tracks labels)
    (v : Fin n) (new : Nat) :
    (d.move v labels[v] new).2 = true ↔
      d ≠ none ∧ labels[v] < n ∧ ∀ u : Fin n, (labels.put v new)[u] ≠ labels[v] := by
  have hmove := h.move v new
  cases d with
  | none => simp [GapDetector.move]
  | counts c =>
      refine (Gap.Counts.Tracks.isEmptyAt_iff hmove labels[v]).trans ?_
      simp
  | buckets b =>
      by_cases hlt : labels[v] < n
      · refine (Gap.Buckets.Tracks.isEmptyAt_iff hmove ⟨labels[v], hlt⟩).trans ?_
        simp [show labels[v.val] < n from hlt]
      · have hout : ((b.move v labels[v] new).1.isEmptyAt labels[v]) = false := by
          rw [Gap.Buckets.isEmptyAt, dif_neg hlt]
        change (b.move v labels[v] new).1.isEmptyAt labels[v] = true ↔ _
        rw [hout]
        exact iff_of_false Bool.false_ne_true fun hboth => hlt hboth.2.1
  | sortedSet o =>
      change (decide (labels[v] < n) && (o.move n v labels[v] new).1.isEmptyAt labels[v]) = true ↔ _
      rw [Bool.and_eq_true, decide_eq_true_eq]
      refine (and_congr_right fun hlt => ?_).trans (and_iff_right (by simp)).symm
      exact Gap.Ordered.Tracks.isEmptyAt_iff hmove hlt

theorem Tracks.mem_takeAbove_iff {d : GapDetector n} {labels : Vector Nat n} (h : d.Tracks labels)
    (hd : d ≠ none) (gap : Nat) (v : Fin n) :
    v.val ∈ (d.takeAbove gap labels.toArray).2 ↔ gap < labels[v] ∧ labels[v] < n := by
  cases d with
  | none => exact absurd rfl hd
  | counts c => exact Gap.Counts.mem_nodesAbove_iff v
  | buckets b => exact Gap.Buckets.Tracks.mem_takeAbove_iff h gap v
  | sortedSet o => exact Gap.Ordered.Tracks.mem_takeAbove_iff h gap v

theorem Tracks.takeAbove {d : GapDetector n} {labels labels' : Vector Nat n} (h : d.Tracks labels)
    {gap : Nat}
    (hlabels : ∀ v : Fin n, labels'[v] =
      if gap < labels[v] ∧ labels[v] < n then n else labels[v]) :
    (d.takeAbove gap labels.toArray).1.Tracks labels' := by
  cases d with
  | none => trivial
  | counts c => exact Gap.Counts.Tracks.clearAbove h hlabels
  | buckets b => exact Gap.Buckets.Tracks.takeAbove h hlabels
  | sortedSet o => exact Gap.Ordered.Tracks.takeAbove h hlabels

end PushRelabel.GapDetector
