import PushRelabel.Proofs.Flow.Paths
import PushRelabel.Proofs.FlowGraph.Meaning
import PushRelabel.Proofs.Pass.Fifo

/-! # Labels between two discharges

Labels are valid whenever no node is being discharged, so a node with the sentinel label
is cut off from the sink, whether a gap, a discharge of its own or a search gave it that
label.
-/

namespace PushRelabel.Fifo

variable {K : Type} [AddCommGroup K] [LinearOrder K] [IsOrderedAddMonoid K] {p : Problem K}
  {g : FlowGraph K} {giver source sink : g.Node} {s t : Fifo g} {threshold : Nat}

/-- Between two discharges of a pass from one super-terminal to the other, labels are valid
and retired nodes cannot reach the sink without going through the source. The pass may start
from any flow that fits and any excess, of which one terminal may owe some. -/
theorem labels_between_discharges (hbuild : p.build = .ok g)
    (hterminals : (source = g.source ∧ sink = g.target) ∨ (source = g.target ∧ sink = g.source))
    (hfits : g.Fits s.flow) (hgiver : giver = source ∨ giver = sink)
    (hexcess : ∀ v : g.Node, v ≠ giver → 0 ≤ s.excess[v])
    (h : Between threshold source sink s t) :
    g.ValidLabels t.flow t.labels source sink ∧
      ∀ v : g.Node, t.labels[v] = g.nodeCount → ¬ g.Reaches t.flow source v sink := by
  have hne : source ≠ sink := by
    rcases hterminals with ⟨rfl, rfl⟩ | ⟨rfl, rfl⟩
    · exact g.source_ne_target
    · exact g.source_ne_target.symm
  have hvalid := (h.sound (Problem.proper_of_build hbuild) hne hgiver hfits hexcess).validLabels
  exact ⟨hvalid, fun v hv => hvalid.not_reaches hv⟩

/-- The first pass over a flow graph, before anything is sent from the super-source on. -/
def firstPassOver (g : FlowGraph ℤ) : Fifo g :=
  .start .buckets (.start 1024 (Preflow.ofFlow g.initialFlow).saturate (.start false none))

/-- The labels, the excess and the number of gaps at the end of the first pass. -/
def bottleneckEnd? : Option (List Nat × List ℤ × Nat) :=
  match Problem.bottleneck.build with
  | .error _ => none
  | .ok g =>
      match run 1000 100 g.source g.target (firstPassOver g) with
      | .ok _ t => some (t.labels.toList, t.excess.toList, t.tally.gapRelabelings)
      | .error _ _ => none

theorem bottleneckEnd?_eq : bottleneckEnd? = some ([6, 6, 1, 6, 0, 2], [0, 2, 0, -3, 1, 0], 1) := by
  cbv

/-- Node 1 lets one unit through. The rest of the excess stays at it, and it is retired through
a gap, together with node 0. -/
theorem labels_between_discharges_bottleneck : ∃ g t, Problem.bottleneck.build = .ok g ∧
    Between 1000 g.source g.target (firstPassOver g) t ∧
    t.labels.toList = [6, 6, 1, 6, 0, 2] ∧ t.tally.gapRelabelings = 1 ∧
    g.ValidLabels t.flow t.labels g.source g.target ∧
      ∀ v : g.Node, t.labels[v] = g.nodeCount → ¬ g.Reaches t.flow g.source v g.target := by
  have hend := bottleneckEnd?_eq
  unfold bottleneckEnd? at hend
  cases hbuild : Problem.bottleneck.build with
  | error _ => simp [hbuild] at hend
  | ok g =>
      simp only [hbuild] at hend
      cases hrun : run 1000 100 g.source g.target (firstPassOver g) with
      | error _ _ => simp [hrun] at hend
      | ok _ t =>
          simp only [hrun, Option.some.injEq, Prod.mk.injEq] at hend
          obtain ⟨hlabels, -, hgaps⟩ := hend
          have hproper := Problem.proper_of_build hbuild
          have hsaturating := Preflow.saturating_saturate
            (p := Preflow.ofFlow g.initialFlow) (FlowGraph.isFlow_initialFlow hproper).fits
          have hbetween := (between_of_run hrun).1
          exact ⟨g, t, rfl, hbetween, hlabels, hgaps,
            labels_between_discharges hbuild (Or.inl ⟨rfl, rfl⟩) hsaturating.balanced.fits
              (Or.inl rfl) hsaturating.balanced.excess_nonneg hbetween⟩

end PushRelabel.Fifo
