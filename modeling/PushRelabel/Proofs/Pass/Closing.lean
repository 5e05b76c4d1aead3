import PushRelabel.Proofs.Gap.Counts
import PushRelabel.Proofs.Pass.Sweep

/-! # What a round decides in the end

After the turns each node that took one gets the label that it has staged, or keeps its own if
it would be retired although it was sent something. Then the nodes above the lowest gap are
retired. Labels are never lowered by this, and only labels that a node has left open a gap.
-/

namespace PushRelabel.Round

variable {K : Type} [Quantity K] {g : FlowGraph K} {u v : g.Node} {vs : List g.Node} {r : Round g}

/-- What committing a node leaves as it was. -/
theorem commit_eq (r : Round g) (v : g.Node) :
    (r.commit v).staged = r.staged ∧ (r.commit v).discovered = r.discovered ∧
      (r.commit v).found = r.found := by
  unfold commit setLabel settle
  dsimp only
  split
  · exact ⟨rfl, rfl, rfl⟩
  · split <;> exact ⟨rfl, rfl, rfl⟩

theorem labels_commit (r : Round g) (v u : g.Node) :
    (r.commit v).labels[u] = if u = v then r.nextLabel v else r.labels[u] := by
  have hlabels : (r.commit v).labels = r.labels.put v (r.nextLabel v) := by
    unfold commit settle
    dsimp only
    split
    next hsame =>
      apply Vector.ext_fin
      intro w
      rw [Vector.getElem_put]
      split
      next heq => exact heq ▸ hsame.symm
      next => rfl
    next =>
      unfold setLabel
      dsimp only
      split <;> rfl
  rw [hlabels, Vector.getElem_put]

theorem mem_emptied_commit {label : Nat} (h : label ∈ (r.commit v).emptied) :
    label ∈ r.emptied ∨ label = r.labels[v] := by
  unfold commit setLabel settle at h
  dsimp only at h
  split at h
  next => exact Or.inl h
  next =>
    split at h
    next => exact Or.inl h
    next =>
      dsimp only at h
      split at h
      · exact Array.mem_push.mp h
      · exact Or.inl h

theorem nextLabel_commit (hne : u ≠ v) : (r.commit v).nextLabel u = r.nextLabel u := by
  obtain ⟨hstaged, hdiscovered, -⟩ := commit_eq r v
  unfold nextLabel
  dsimp only
  rw [hstaged, hdiscovered, labels_commit, if_neg hne]

theorem labels_foldl_commit (hnodup : vs.Nodup) (u : g.Node) :
    (vs.foldl (fun r v => r.commit v) r).labels[u] =
      if u ∈ vs then r.nextLabel u else r.labels[u] := by
  induction vs generalizing r with
  | nil => simp
  | cons v vs ih =>
      obtain ⟨hv, hnodup⟩ := List.nodup_cons.mp hnodup
      rw [List.foldl_cons, ih hnodup]
      by_cases hu : u = v
      · subst hu
        rw [if_neg hv, labels_commit, if_pos rfl, if_pos List.mem_cons_self]
      · simp only [nextLabel_commit hu, labels_commit, List.mem_cons, hu, false_or, if_false]

/-- Only the labels of nodes that took a turn may lose their last node. -/
theorem mem_emptied_foldl_commit (hnodup : vs.Nodup) {label : Nat}
    (h : label ∈ (vs.foldl (fun r v => r.commit v) r).emptied) :
    label ∈ r.emptied ∨ ∃ v ∈ vs, label = r.labels[v] := by
  induction vs generalizing r with
  | nil => exact Or.inl h
  | cons v vs ih =>
      obtain ⟨hv, hnodup⟩ := List.nodup_cons.mp hnodup
      rcases ih hnodup h with hold | ⟨w, hw, hlabel⟩
      · exact (mem_emptied_commit hold).imp_right fun heq => ⟨v, List.mem_cons_self, heq⟩
      · have hne : w ≠ v := fun heq => hv (heq ▸ hw)
        rw [labels_commit, if_neg hne] at hlabel
        exact Or.inr ⟨w, List.mem_cons_of_mem v hw, hlabel⟩

omit [Quantity K] in
/-- Closing the lowest gap changes no label, or retires the nodes above a label that lost its last
node and is still without nodes. -/
theorem labels_closeGap_cases (r : Round g) :
    r.closeGap.labels = r.labels ∨
      ∃ counts gap, r.counts = some counts ∧ gap ∈ r.emptied ∧ counts.isEmptyAt gap = true ∧
        ∀ v : g.Node, r.closeGap.labels[v] =
          if gap < r.labels[v] ∧ r.labels[v] < g.nodeCount then g.nodeCount else r.labels[v] := by
  unfold closeGap
  dsimp only
  split
  next counts gap hcounts hgap =>
    unfold gap? at hgap
    rw [hcounts] at hgap
    obtain ⟨hmem, hempty⟩ := List.mem_filter.mp (List.min?_mem hgap)
    refine Or.inr ⟨counts, gap, hcounts, Array.mem_toList_iff.mp hmem, hempty, fun v => ?_⟩
    simp only [retireAbove, getElem_foldl_setIfInBounds, Gap.Counts.mem_nodesAbove_iff]
  next => exact Or.inl rfl

omit [Quantity K] in
/-- A node keeps its label, or is retired because it is above a label that lost its last node. -/
theorem labels_closeGap (r : Round g) (v : g.Node) :
    r.closeGap.labels[v] = r.labels[v] ∨
      r.closeGap.labels[v] = g.nodeCount ∧ ∃ gap ∈ r.emptied, gap < r.labels[v] ∧
        r.labels[v] < g.nodeCount := by
  rcases r.labels_closeGap_cases with hsame | ⟨_, gap, -, hgap, -, hlabels⟩
  · rw [hsame]
    exact Or.inl rfl
  · rw [hlabels]
    split
    next habove => exact Or.inr ⟨rfl, gap, hgap, habove⟩
    next => exact Or.inl rfl

theorem labels_settleFound (r : Round g) : r.settleFound.labels = r.labels := by
  rw [settleFound_eq, labels_foldl_release]

theorem labels_ending_eq (sink : g.Node) (vs : List g.Node) (r : Round g) :
    (r.ending sink vs).labels = (vs.foldl (fun r v => r.commit v) r).closeGap.labels :=
  labels_settleFound _

/-- What was found in the turns is not changed before the next working set is filled. -/
theorem found_settleFound (vs : List g.Node) (r : Round g) :
    (vs.foldl (fun r v => r.commit v) r).closeGap.settleFound.found = r.found := by
  have hcommitted : (vs.foldl (fun r v => r.commit v) r).found = r.found :=
    List.foldlRecOn (motive := fun q : Round g => q.found = r.found) vs _ rfl
      fun q hq v _ => (commit_eq q v).2.2.trans hq
  rw [settleFound_eq, found_foldl_release, ← hcommitted]
  unfold closeGap
  dsimp only
  split <;> rfl

theorem isActive_close (r : Round g) {sink : g.Node} (hv : v ≠ sink) :
    (r.close sink).IsActive v ↔ r.IsActive v := by
  have hexcess : (r.close sink).excess[v] = r.excess[v] := by
    unfold close settle
    rw [Vector.getElem_put, if_neg hv]
  rw [Preflow.IsActive, Preflow.IsActive, hexcess]
  rfl

theorem emptied_ending (sink : g.Node) (vs : List g.Node) (r : Round g) :
    (r.ending sink vs).emptied = #[] := by
  change (Round.settleFound _).emptied = _
  rw [settleFound_eq]
  exact unchanged_foldl_release _ _ (fun r => r.emptied) fun _ _ => rfl

/-- A node gets the label that it is due, unless it is retired. Then some node that took a turn
was below that label. -/
theorem labels_ending (hnodup : vs.Nodup) (hemptied : r.emptied = #[]) (sink v : g.Node) :
    (r.ending sink vs).labels[v] = (if v ∈ vs then r.nextLabel v else r.labels[v]) ∨
      (r.ending sink vs).labels[v] = g.nodeCount ∧
        (if v ∈ vs then r.nextLabel v else r.labels[v]) < g.nodeCount ∧
        ∃ w ∈ vs, r.labels[w] < if v ∈ vs then r.nextLabel v else r.labels[v] := by
  simp only [labels_ending_eq]
  have hclosed := labels_closeGap (vs.foldl (fun r v => r.commit v) r) v
  simp only [labels_foldl_commit hnodup v] at hclosed
  refine hclosed.imp_right ?_
  rintro ⟨hretired, gap, hgap, habove, hlt⟩
  rcases mem_emptied_foldl_commit hnodup hgap with hold | ⟨w, hw, rfl⟩
  · rw [hemptied] at hold
    exact absurd hold (Array.not_mem_empty _)
  · exact ⟨hretired, hlt, w, hw, habove⟩

omit [Quantity K] in
theorem nextLabel_eq_or (r : Round g) (v : g.Node) :
    r.nextLabel v = r.labels[v] ∨ r.nextLabel v = r.staged[v] := by
  unfold nextLabel
  dsimp only
  split
  · exact Or.inl rfl
  · exact Or.inr rfl

omit [Quantity K] in
theorem le_nextLabel (hstaged : r.labels[v] ≤ r.staged[v]) : r.labels[v] ≤ r.nextLabel v := by
  rcases r.nextLabel_eq_or v with heq | heq
  · exact heq.ge
  · exact hstaged.trans_eq heq.symm

omit [Quantity K] in
theorem nextLabel_le (hlabel : r.labels[v] ≤ g.nodeCount) (hstaged : r.staged[v] ≤ g.nodeCount) :
    r.nextLabel v ≤ g.nodeCount := by
  rcases r.nextLabel_eq_or v with heq | heq
  · exact heq.trans_le hlabel
  · exact heq.trans_le hstaged

/-- Labels are never lowered. -/
theorem le_labels_ending (hnodup : vs.Nodup) (hemptied : r.emptied = #[])
    (hstaged : ∀ v ∈ vs, r.labels[v] ≤ r.staged[v]) (sink v : g.Node) :
    r.labels[v] ≤ (r.ending sink vs).labels[v] := by
  have hdue : r.labels[v] ≤ if v ∈ vs then r.nextLabel v else r.labels[v] := by
    split
    next hv => exact le_nextLabel (hstaged v hv)
    next => exact le_rfl
  rcases labels_ending hnodup hemptied sink v with heq | ⟨heq, hlt, -⟩
  · exact hdue.trans_eq heq.symm
  · exact (hdue.trans hlt.le).trans_eq heq.symm

theorem labels_ending_le (hnodup : vs.Nodup) (hemptied : r.emptied = #[])
    (hlabels : ∀ v : g.Node, r.labels[v] ≤ g.nodeCount)
    (hstaged : ∀ v ∈ vs, r.staged[v] ≤ g.nodeCount) (sink v : g.Node) :
    (r.ending sink vs).labels[v] ≤ g.nodeCount := by
  rcases labels_ending hnodup hemptied sink v with heq | ⟨heq, -⟩
  · rw [heq]
    split
    next hv => exact nextLabel_le (hlabels v) (hstaged v hv)
    next => exact hlabels v
  · exact heq.le

/-- A round does not change labels below those of the nodes that take turns. -/
theorem labels_ending_of_lt (hnodup : vs.Nodup) (hemptied : r.emptied = #[]) {level : Nat}
    (hlevel : ∀ v ∈ vs, level ≤ r.labels[v]) (sink : g.Node) (hv : r.labels[v] < level) :
    (r.ending sink vs).labels[v] = r.labels[v] := by
  have hnot : v ∉ vs := fun hmem => hv.not_ge (hlevel v hmem)
  have hending := labels_ending hnodup hemptied sink v
  simp only [if_neg hnot] at hending
  rcases hending with heq | ⟨-, -, w, hw, hlt⟩
  · exact heq
  · exact absurd (hlevel w hw) (hlt.trans hv).not_ge

/-- A node that took a turn and is not retired has the label that it has staged, or has kept its
own because it was discovered. -/
theorem staged_of_labels_ending (hnodup : vs.Nodup) (hemptied : r.emptied = #[]) {sink : g.Node}
    (hv : v ∈ vs) (hlt : (r.ending sink vs).labels[v] < g.nodeCount) :
    (r.ending sink vs).labels[v] = r.staged[v] ∨
      (r.ending sink vs).labels[v] = r.labels[v] ∧ g.nodeCount ≤ r.staged[v] ∧
        r.discovered[v] = true := by
  have hending := labels_ending hnodup hemptied sink v
  simp only [if_pos hv] at hending
  rcases hending with heq | ⟨heq, -⟩
  · rw [heq, nextLabel]
    split
    next hkeeps => exact Or.inr ⟨rfl, hkeeps.1, hkeeps.2.2⟩
    next => exact Or.inl rfl
  · exact absurd heq hlt.ne

end PushRelabel.Round
