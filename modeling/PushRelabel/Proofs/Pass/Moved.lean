import PushRelabel.Pass.Fifo
import PushRelabel.Proofs.Flow.Labels
import PushRelabel.Proofs.Gap.Detector

/-! # Moving a node to another label

A node that moves to a higher label may leave a gap behind, and then the nodes above
the gap are retired with it. Either way no label gets lower, and labels that were
valid stay valid if the residual darts of the node allow its new label.
-/

namespace PushRelabel.Fifo

variable {K : Type} {g : FlowGraph K} {s t : Fifo g} {v : g.Node} {label : Nat} {emptied : Bool}

theorem labels_retireAbove (h : s.gaps.Tracks s.labels) (hgaps : s.gaps ≠ .none) (gap : Nat)
    (u : g.Node) :
    (s.retireAbove gap).labels[u] =
      if gap < s.labels[u] ∧ s.labels[u] < g.nodeCount then g.nodeCount else s.labels[u] := by
  unfold retireAbove
  rw [getElem_foldl_setIfInBounds]
  exact if_congr (h.mem_takeAbove_iff hgaps gap u) rfl rfl

theorem tracks_retireAbove (h : s.gaps.Tracks s.labels) (hgaps : s.gaps ≠ .none) (gap : Nat) :
    (s.retireAbove gap).gaps.Tracks (s.retireAbove gap).labels :=
  h.takeAbove (labels_retireAbove h hgaps gap)

/-- What a change of the label of a node does, whether or not it leaves a gap. -/
structure Moved (s : Fifo g) (v : g.Node) (label : Nat) (t : Fifo g) (emptied : Bool) : Prop where
  flow_eq : t.flow = s.flow
  excess_eq : t.excess = s.excess
  queue_eq : t.queue = s.queue
  queued_eq : t.queued = s.queued
  tracks : t.gaps.Tracks t.labels
  kept : emptied = false → t.labels = s.labels.put v label
  unused : emptied = true → ∀ u : g.Node, (s.labels.put v label)[u] ≠ s.labels[v]
  retired : emptied = true → ∀ u : g.Node, t.labels[u] =
    if s.labels[v] < (s.labels.put v label)[u] ∧ (s.labels.put v label)[u] < g.nodeCount
    then g.nodeCount else (s.labels.put v label)[u]

theorem moved_setLabel (h : s.gaps.Tracks s.labels) (v : g.Node) (label : Nat) :
    s.Moved v label (s.setLabel v label).1 (s.setLabel v label).2 := by
  have htracks := h.move v label
  have hemptied := h.move_emptied_iff v label
  have hgaps : s.gaps ≠ .none → (s.gaps.move v s.labels[v] label).1 ≠ .none := by
    cases s.gaps <;> simp [GapDetector.move]
  unfold setLabel
  dsimp only
  split
  next htrue =>
    obtain ⟨hsome, -, hunused⟩ := hemptied.mp htrue
    exact ⟨rfl, rfl, rfl, rfl, tracks_retireAbove htracks (hgaps hsome) _, Bool.noConfusion,
      fun _ => hunused, fun _ => labels_retireAbove htracks (hgaps hsome) _⟩
  next => exact ⟨rfl, rfl, rfl, rfl, htracks, fun _ => rfl, Bool.noConfusion, Bool.noConfusion⟩

namespace Moved

theorem label_eq_of_kept (h : s.Moved v label t false) (u : g.Node) :
    t.labels[u] = if u = v then label else s.labels[u] := by
  rw [h.kept rfl, Vector.getElem_put]

theorem label_le (h : s.Moved v label t emptied) (hle : s.labels[v] ≤ label)
    (hbound : ∀ u : g.Node, s.labels[u] ≤ g.nodeCount) (u : g.Node) :
    s.labels[u] ≤ t.labels[u] := by
  have hset : s.labels[u] ≤ (s.labels.put v label)[u] := by
    rw [Vector.getElem_put]
    split
    next heq => exact heq ▸ hle
    next => exact le_rfl
  cases emptied with
  | false => exact h.kept rfl ▸ hset
  | true =>
      rw [h.retired rfl u]
      split
      · exact hbound u
      · exact hset

theorem le_nodeCount (h : s.Moved v label t emptied) (hlabel : label ≤ g.nodeCount)
    (hbound : ∀ u : g.Node, s.labels[u] ≤ g.nodeCount) (u : g.Node) :
    t.labels[u] ≤ g.nodeCount := by
  have hset : (s.labels.put v label)[u] ≤ g.nodeCount := by
    rw [Vector.getElem_put]
    split
    · exact hlabel
    · exact hbound u
  cases emptied with
  | false => exact h.kept rfl ▸ hset
  | true =>
      rw [h.retired rfl u]
      split
      · exact le_rfl
      · exact hset

/-- A node that leaves a gap behind when it is raised is retired itself. -/
theorem label_eq_of_emptied (h : s.Moved v label t true) (hlt : s.labels[v] < label)
    (hlabel : label ≤ g.nodeCount) : t.labels[v] = g.nodeCount := by
  rw [h.retired rfl v, Vector.getElem_put, if_pos rfl]
  split <;> omega

theorem label_eq_of_sentinel (h : s.Moved v g.nodeCount t emptied) :
    t.labels[v] = g.nodeCount := by
  cases emptied with
  | false => rw [h.kept rfl, Vector.getElem_put, if_pos rfl]
  | true =>
      rw [h.retired rfl v, Vector.getElem_put, if_pos rfl]
      split <;> rfl

theorem validLabels [Quantity K] {source sink : g.Node} (h : s.Moved v label t emptied)
    (hvalid : g.ValidLabels s.flow s.labels source sink) (hsource : v ≠ source) (hsink : v ≠ sink)
    (hge : s.labels[v] ≤ label) (hle : label ≤ g.nodeCount)
    (hdarts : ∀ d ∈ g.darts v, 0 < g.residual s.flow d → d.other ≠ v →
      label ≤ s.labels[d.other] + 1) :
    g.ValidLabels t.flow t.labels source sink := by
  have hraised := hvalid.raise hsource hsink hge hle hdarts
  rw [h.flow_eq]
  cases emptied with
  | false => exact h.kept rfl ▸ hraised
  | true => exact hraised.retire (h.unused rfl) (h.retired rfl)

end Moved

end PushRelabel.Fifo
