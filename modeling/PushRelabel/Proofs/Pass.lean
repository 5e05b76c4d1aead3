import PushRelabel.Pass
import PushRelabel.Proofs.Distance
import PushRelabel.Proofs.Preflow
import PushRelabel.Proofs.Success

/-! # What a pass achieves

A pass from a source to a sink moves excess without losing any and leaves the arcs
of its source alone. When it ends, labels are valid, and whatever excess is left
between the terminals is at nodes that were retired.
-/

namespace PushRelabel

variable {K : Type}

/-- Recomputing the labels makes them exact and changes nothing that flows. -/
theorem Pass.relabel_eq_ok [Quantity K] {g : FlowGraph K} {source sink : g.Node} {p q : Pass g}
    {u : Unit} (hne : source ≠ sink) (h : Pass.relabel source sink p = .ok u q) :
    q.flow = p.flow ∧ q.excess = p.excess ∧ g.ExactLabels q.flow q.labels source sink := by
  unfold Pass.relabel at h
  rw [modify_bind, get_bind] at h
  obtain ⟨largest, p₂, hsearch, h⟩ := bind_eq_ok_iff.mp h
  obtain rfl := modify_eq_ok_iff.mp h
  obtain ⟨⟨search, labels⟩, hrun, rfl⟩ := onPart_eq_ok_iff.mp hsearch
  exact ⟨rfl, rfl, (Search.run_eq_ok hne hrun).1⟩

/-- What holds after a pass, relative to the preflow from which it started. -/
structure Preflow.Settled [AddCommGroup K] [LinearOrder K] {g : FlowGraph K} (start : Preflow g)
    (giver source sink : g.Node) (p : Preflow g) : Prop where
  balanced : start.Balanced giver p
  leavesAlone : start.LeavesAlone source p
  validLabels : g.ValidLabels p.flow p.labels source sink
  retired : ∀ v : g.Node, v ≠ source → v ≠ sink → 0 < p.excess[v] → p.labels[v] = g.nodeCount

end PushRelabel
