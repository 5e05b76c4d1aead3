import PushRelabel.Proofs.Flow.Paths

/-! # Shortest residual paths

Labels are distances if each node from which a residual path leads to the sink without the
source has the length of a shortest one, and all others have the sentinel. Exact labels are
distances: they fall by at most one along a residual dart, so no path is shorter, and following
the darts along which they fall gives a path that is as long.
-/

namespace PushRelabel.FlowGraph

variable {K : Type} [Quantity K] {g : FlowGraph K} {flow : g.Flow} {source sink u v w : g.Node}
  {n : Nat}

/-- A path of a number of residual darts that never leaves the source. -/
inductive ReachesIn (g : FlowGraph K) (flow : g.Flow) (source : g.Node) :
    Nat → g.Node → g.Node → Prop
  | refl (v : g.Node) : ReachesIn g flow source 0 v v
  | step {n : Nat} {u v w : g.Node} (hleads : g.Leads flow source u v)
      (h : ReachesIn g flow source n v w) : ReachesIn g flow source (n + 1) u w

theorem ReachesIn.reaches (h : g.ReachesIn flow source n u v) : g.Reaches flow source u v := by
  induction h with
  | refl v => exact .refl
  | step hleads _ ih => exact .head hleads ih

/-- The labels are the lengths of shortest residual paths to the sink that avoid the source, where
there are any, and the sentinel elsewhere. -/
structure Distances (g : FlowGraph K) (flow : g.Flow) (labels : Vector Nat g.nodeCount)
    (source sink : g.Node) : Prop where
  sink_eq : labels[sink] = 0
  source_eq : labels[source] = g.nodeCount
  isLeast : ∀ v : g.Node, v ≠ source → g.Reaches flow source v sink →
    IsLeast {n | g.ReachesIn flow source n v sink} labels[v]
  label_lt : ∀ v : g.Node, v ≠ source → g.Reaches flow source v sink → labels[v] < g.nodeCount
  label_eq : ∀ v : g.Node, v = source ∨ ¬ g.Reaches flow source v sink → labels[v] = g.nodeCount

variable {labels labels' : Vector Nat g.nodeCount}

/-- No path is shorter than valid labels say. -/
theorem ValidLabels.label_le_of_reachesIn (h : g.ValidLabels flow labels source sink)
    (hreaches : g.ReachesIn flow source n v sink) : labels[v] ≤ n := by
  generalize hend : sink = w at hreaches
  induction hreaches with
  | refl v =>
      subst hend
      exact h.sink_eq.le
  | step hleads _ ih =>
      obtain ⟨hne, d, hd, hresidual, rfl⟩ := hleads
      exact (h.le_succ _ hne d hd hresidual).trans (Nat.succ_le_succ (ih hend))

/-- Some path is as short as exact labels say. -/
theorem ExactLabels.reachesIn (h : g.ExactLabels flow labels source sink)
    (hlt : labels[v] < g.nodeCount) : g.ReachesIn flow source labels[v] v sink := by
  induction hlabel : labels[v] generalizing v with
  | zero =>
      have hsink : v = sink := by
        by_contra hne
        obtain ⟨d, -, -, hdown⟩ := h.descends v hne hlt
        omega
      rw [hsink]
      exact .refl sink
  | succ n ih =>
      have hsink : v ≠ sink := by
        rintro rfl
        have := h.sink_eq
        omega
      have hsource : v ≠ source := by
        rintro rfl
        exact hlt.ne h.source_eq
      obtain ⟨d, hd, hresidual, hdown⟩ := h.descends v hsink hlt
      exact .step ⟨hsource, d, hd, hresidual, rfl⟩ (ih (by omega) (by omega))

theorem ExactLabels.label_lt_iff (h : g.ExactLabels flow labels source sink) :
    labels[v] < g.nodeCount ↔ g.Reaches flow source v sink := by
  refine ⟨fun hlt => (h.reachesIn hlt).reaches, fun hreaches => ?_⟩
  exact lt_of_le_of_ne (h.le_nodeCount v) fun heq => h.not_reaches heq hreaches

/-- Exact labels are distances. -/
theorem ExactLabels.distances (h : g.ExactLabels flow labels source sink) :
    g.Distances flow labels source sink := by
  refine ⟨h.sink_eq, h.source_eq, fun v _ hreaches => ⟨h.reachesIn (h.label_lt_iff.mpr hreaches),
    fun n hn => h.label_le_of_reachesIn hn⟩, fun v _ hreaches => h.label_lt_iff.mpr hreaches, ?_⟩
  rintro v (rfl | hnot)
  · exact h.source_eq
  · exact (h.le_nodeCount v).antisymm (not_lt.mp (mt h.label_lt_iff.mp hnot))

/-- There are no other distances. -/
theorem Distances.labels_unique (h : g.Distances flow labels source sink)
    (h' : g.Distances flow labels' source sink) : labels = labels' := by
  refine Vector.ext_fin fun v => ?_
  by_cases hv : v ≠ source ∧ g.Reaches flow source v sink
  · exact (h.isLeast v hv.1 hv.2).unique (h'.isLeast v hv.1 hv.2)
  · have hcut := not_and_or.mp hv |>.imp_left not_not.mp
    rw [h.label_eq v hcut, h'.label_eq v hcut]

end PushRelabel.FlowGraph
