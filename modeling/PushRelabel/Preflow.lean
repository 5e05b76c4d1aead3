import PushRelabel.FlowGraph

/-! # Preflows

A preflow is a flow that may leave excess at nodes, with a label for each node: a
lower bound of its distance to the sink, or the number of nodes if the sink is
out of reach.
-/

namespace PushRelabel

variable {K : Type}

structure Preflow (g : FlowGraph K) where
  flow : g.Flow
  excess : Vector K g.nodeCount
  labels : Vector Nat g.nodeCount

namespace Preflow

variable [Quantity K] {g : FlowGraph K}

/-- A flow with no excess anywhere, and labels that promise nothing. -/
def ofFlow (flow : g.Flow) : Preflow g where
  flow := flow
  excess := Vector.replicate g.nodeCount 0
  labels := Vector.replicate g.nodeCount g.nodeCount

/-- Sends an amount along a dart of a node. -/
def send (p : Preflow g) (v : g.Node) (d : g.DartOf) (amount : K) : Preflow g :=
  let excess := p.excess.put v (p.excess[v] - amount)
  { p with
    flow := g.push p.flow d amount
    excess := excess.put d.other (excess[d.other] + amount) }

/-- Sends along a dart leaving the super-source all that it can take. -/
def saturateDart (p : Preflow g) (d : g.DartOf) : Preflow g :=
  let residual := g.residual p.flow d
  if 0 < residual then p.send g.source d residual else p

/-- Saturates the arcs leaving the super-source, starting from no excess. -/
def saturate (p : Preflow g) : Preflow g :=
  (g.leaving g.source).foldl saturateDart { p with excess := Vector.replicate g.nodeCount 0 }

/-- A node that has excess and may still reach the sink. -/
def IsActive (p : Preflow g) (v : g.Node) : Prop := 0 < p.excess[v] ∧ p.labels[v] < g.nodeCount

instance (p : Preflow g) (v : g.Node) : Decidable (p.IsActive v) :=
  inferInstanceAs (Decidable (_ ∧ _))

/-- The active nodes other than the terminals, in ascending order. -/
def active (p : Preflow g) (source sink : g.Node) : List g.Node :=
  (List.finRange g.nodeCount).filter fun v => v ≠ source ∧ v ≠ sink ∧ p.IsActive v

theorem mem_active {p : Preflow g} {source sink v : g.Node} :
    v ∈ p.active source sink ↔ v ≠ source ∧ v ≠ sink ∧ p.IsActive v := by
  simp [active]

theorem labels_send (p : Preflow g) (v : g.Node) (d : g.DartOf) (amount : K) :
    (p.send v d amount).labels = p.labels := rfl

theorem flow_send (p : Preflow g) (v : g.Node) (d : g.DartOf) (amount : K) :
    (p.send v d amount).flow = g.push p.flow d amount := rfl

end Preflow

end PushRelabel
