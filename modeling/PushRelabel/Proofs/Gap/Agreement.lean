import PushRelabel.Proofs.Gap.Detector

/-! # Detectors that agree with each other

Detectors of different kinds that track the same labels report the same gaps. Above a gap they
find the same nodes, each of them once, if not in the same order.
-/

namespace PushRelabel

open Gap.Counts (nodesAbove)

namespace Gap

variable {n gap : Nat} {labels : Vector Nat n}

theorem Counts.nodup_nodesAbove : (nodesAbove gap n labels.toArray).Nodup :=
  List.nodup_range.filter _

theorem Counts.lt_of_mem_nodesAbove {v : Nat} (h : v ∈ nodesAbove gap n labels.toArray) :
    v < n := by
  rw [nodesAbove, List.mem_filter, List.mem_range, Vector.size_toArray] at h
  exact h.1

/-- A list of the nodes above a label has them in some order. -/
theorem Counts.perm_nodesAbove {nodes : List Nat} (hnodup : nodes.Nodup)
    (hlt : ∀ v ∈ nodes, v < n)
    (hmem : ∀ v : Fin n, v.val ∈ nodes ↔ gap < labels[v] ∧ labels[v] < n) :
    nodes.Perm (nodesAbove gap n labels.toArray) := by
  rw [List.perm_ext_iff_of_nodup hnodup nodup_nodesAbove]
  intro v
  by_cases hv : v < n
  · exact (hmem ⟨v, hv⟩).trans (mem_nodesAbove_iff ⟨v, hv⟩).symm
  · exact iff_of_false (mt (hlt v) hv) (mt lt_of_mem_nodesAbove hv)

/-- Each node is in the list of one label only. -/
theorem Buckets.Tracks.nodup_takeAbove {b : Buckets n} (h : b.Tracks labels) :
    (b.takeAbove gap).2.Nodup := by
  obtain ⟨lists, hlists⟩ := h
  have hbucket : ∀ label, (b.bucket label).Nodup ∧ ∀ v ∈ b.bucket label, labels[v] = label := by
    intro label
    by_cases hlabel : label < n
    · rw [hlists.bucket_eq ⟨label, hlabel⟩]
      exact ⟨hlists.nodup _, fun v hv => (hlists.mem_iff _ v).mp hv⟩
    · simp [bucket, hlabel]
  have hlabels : (b.labelsAbove gap).Nodup := List.nodup_range'
  refine List.nodup_flatMap.mpr ⟨fun label _ => ?_, hlabels.imp fun {l l'} hne => ?_⟩
  · exact (hbucket label).1.map Fin.val_injective
  · intro v hv hv'
    obtain ⟨u, hu, rfl⟩ := List.mem_map.mp hv
    obtain ⟨w, hw, heq⟩ := List.mem_map.mp hv'
    obtain rfl := Fin.ext heq
    exact hne (((hbucket l).2 w hu).symm.trans ((hbucket l').2 w hw))

theorem Ordered.Tracks.nodup_takeAbove {o : Ordered} (h : o.Tracks n labels) :
    (o.takeAbove gap).2.Nodup := by
  have hsublist : (o.members.dropWhile fun a => a.1 ≤ gap).Sublist o.members :=
    List.dropWhile_sublist _
  refine List.Nodup.map_on ?_ ((h.sorted.sublist hsublist).imp Ordered.Before.ne)
  intro a ha b hb hnode
  obtain ⟨-, _, ha⟩ := (h.mem_iff a).mp (hsublist.subset ha)
  obtain ⟨-, _, hb⟩ := (h.mem_iff b).mp (hsublist.subset hb)
  have hlabel : labels[a.2] = labels[b.2] := by simp only [hnode]
  exact Prod.ext (ha.symm.trans (hlabel.trans hb)) hnode

theorem Ordered.Tracks.lt_of_mem_takeAbove {o : Ordered} (h : o.Tracks n labels) {v : Nat}
    (hv : v ∈ (o.takeAbove gap).2) : v < n := by
  obtain ⟨a, ha, rfl⟩ := List.mem_map.mp hv
  obtain ⟨-, hlt, -⟩ := (h.mem_iff a).mp ((List.dropWhile_sublist _).subset ha)
  exact hlt

end Gap

namespace GapDetector

variable {n gap : Nat} {labels : Vector Nat n} {d e : GapDetector n}

/-- A detector takes out the nodes above a label, each of them once. -/
theorem Tracks.takeAbove_perm (h : d.Tracks labels) (hd : d ≠ none) (gap : Nat) :
    (d.takeAbove gap labels.toArray).2.Perm (nodesAbove gap n labels.toArray) := by
  have hmem := h.mem_takeAbove_iff hd gap
  cases d with
  | none => exact absurd rfl hd
  | counts c => exact List.Perm.refl _
  | buckets b =>
      refine Gap.Counts.perm_nodesAbove (Gap.Buckets.Tracks.nodup_takeAbove h) (fun v hv => ?_) hmem
      obtain ⟨label, -, hv⟩ := List.mem_flatMap.mp hv
      obtain ⟨u, -, rfl⟩ := List.mem_map.mp hv
      exact u.isLt
  | sortedSet o =>
      exact Gap.Counts.perm_nodesAbove (Gap.Ordered.Tracks.nodup_takeAbove h)
        (fun v hv => Gap.Ordered.Tracks.lt_of_mem_takeAbove h hv) hmem

/-- A detector that detects gaps, and agrees with the labels of all nodes. -/
structure Follows (d : GapDetector n) (labels : Vector Nat n) : Prop where
  detects : d ≠ none
  tracks : d.Tracks labels

theorem ofStrategy_ne_none {strategy : GapStrategy} (h : strategy ≠ .none) :
    (ofStrategy strategy : GapDetector n) ≠ none := by
  cases strategy <;> first | exact absurd rfl h | exact nofun

theorem follows_reset (hd : d ≠ none) (labels : Vector Nat n) :
    (d.reset labels.toArray).Follows labels := by
  refine ⟨?_, d.tracks_reset labels⟩
  cases d <;> first | exact absurd rfl hd | exact nofun

theorem Follows.move (h : d.Follows labels) (v : Fin n) (new : Nat) :
    (d.move v labels[v] new).1.Follows (labels.put v new) := by
  refine ⟨?_, h.tracks.move v new⟩
  have hd := h.detects
  cases d <;> first | exact absurd rfl hd | exact nofun

theorem Follows.takeAbove {labels' : Vector Nat n} (h : d.Follows labels)
    (hlabels : ∀ v : Fin n, labels'[v] =
      if gap < labels[v] ∧ labels[v] < n then n else labels[v]) :
    (d.takeAbove gap labels.toArray).1.Follows labels' := by
  refine ⟨?_, h.tracks.takeAbove hlabels⟩
  have hd := h.detects
  cases d <;> first | exact absurd rfl hd | exact nofun

/-- Detectors report the same gaps. -/
theorem Follows.emptied_eq (hd : d.Follows labels) (he : e.Follows labels) (v : Fin n)
    (new : Nat) : (d.move v labels[v] new).2 = (e.move v labels[v] new).2 := by
  rw [Bool.eq_iff_iff, hd.tracks.move_emptied_iff, he.tracks.move_emptied_iff]
  exact and_congr_left' (iff_of_true hd.detects he.detects)

/-- Detectors find the same nodes above a label. -/
theorem Follows.taken_perm (hd : d.Follows labels) (he : e.Follows labels) (gap : Nat) :
    (d.takeAbove gap labels.toArray).2.Perm (e.takeAbove gap labels.toArray).2 :=
  (hd.tracks.takeAbove_perm hd.detects gap).trans (he.tracks.takeAbove_perm he.detects gap).symm

end GapDetector

end PushRelabel
