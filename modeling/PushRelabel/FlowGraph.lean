import PushRelabel.Compressed
import PushRelabel.Quantity

/-! # Flow graphs

The graph on which flows are computed: the nodes of a network, a super-source, a
super-target, and a split node for each node of the network whose throughput is
limited. An arc is seen from both of its endpoints; a dart is such a view. The
darts of a node are the arcs leaving it and then the arcs entering it, both in
the order of the arcs.

Arcs leaving the super-target start saturated, so what is delivered to the
super-target along one of them is its capacity minus its flow.
-/

namespace PushRelabel

/-- An arc between two of `n` nodes. -/
structure Link (n : Nat) (K : Type) where
  tail : Fin n
  head : Fin n
  capacity : K

/-- An arc seen from one of its endpoints. -/
structure Dart (n m : Nat) where
  /-- The endpoint at the other side. -/
  other : Fin n
  arc : Fin m
  /-- The arc enters the node from which it is seen. -/
  reversed : Bool
deriving DecidableEq

namespace Dart

variable {n m : Nat} {K : Type}

/-- Each arc seen from its head, in the order of the tails. -/
def backwards (outgoing : Offsets n m) : List (Dart n m) :=
  (List.finRange n).flatMap fun v => (outgoing.row v).map fun i => ⟨v, i, true⟩

/-- Where the arcs entering each node begin. -/
def incoming (arcs : Vector (Link n K) m) : Offsets n m :=
  .ofKeys (arcs.toList.map Link.head) (by simp)

/-- The arcs as they are seen from their heads, in the order of the heads. -/
def byHead (arcs : Vector (Link n K) m) (outgoing : Offsets n m) : Vector (Dart n m) m :=
  (Filling.fill (incoming arcs) (fun d => arcs[d.arc].head)
    (Vector.ofFn fun i => ⟨⟨0, arcs[i].head.pos⟩, ⟨0, i.pos⟩, true⟩) (backwards outgoing)).places

end Dart

/-- The nodes below `order` are those of the network, followed by the super-source,
the super-target and the split nodes. The arcs are stored row after row, where the
row of a node has the arcs leaving it, and a second table has rows of the arcs entering
each node. -/
structure FlowGraph (K : Type) where
  order : Nat
  /-- The number of arcs of the network, loops included. -/
  networkArcs : Nat
  /-- The node from which each split node was split. -/
  splits : Array (Fin order)
  arcCount : Nat
  arcs : Vector (Link (order + 2 + splits.size) K) arcCount
  outgoing : Offsets (order + 2 + splits.size) arcCount
  tail_of_mem_row : ∀ v, ∀ i ∈ outgoing.row v, arcs[i].tail = v
  incoming : Offsets (order + 2 + splits.size) arcCount
  byHead : Vector (Dart (order + 2 + splits.size) arcCount) arcCount
  incoming_eq : incoming = Dart.incoming arcs
  byHead_eq : byHead = Dart.byHead arcs outgoing

namespace FlowGraph

variable {K : Type}

/-- The arcs that leave each node, one node after the other. -/
def ofRows (order networkArcs : Nat) (splits : Array (Fin order))
    (rows : Vector (List (Link (order + 2 + splits.size) K)) (order + 2 + splits.size))
    (htail : ∀ v : Fin (order + 2 + splits.size), ∀ a ∈ rows[v], a.tail = v) : FlowGraph K where
  order := order
  networkArcs := networkArcs
  splits := splits
  arcCount := rows.toList.flatten.length
  arcs := ⟨rows.toList.flatten.toArray, rfl⟩
  outgoing := Offsets.ofRows rows
  tail_of_mem_row v i hi := by
    refine htail v _ ?_
    rw [← Offsets.map_row_ofRows rows v]
    exact List.mem_map_of_mem (f := fun i => rows.toList.flatten[i]) hi
  incoming := Dart.incoming ⟨rows.toList.flatten.toArray, rfl⟩
  byHead := Dart.byHead ⟨rows.toList.flatten.toArray, rfl⟩ (Offsets.ofRows rows)
  incoming_eq := rfl
  byHead_eq := rfl

/-- The number of nodes, which is also the label of the nodes that cannot reach the sink. -/
abbrev nodeCount (g : FlowGraph K) : Nat := g.order + 2 + g.splits.size

abbrev Node (g : FlowGraph K) : Type := Fin g.nodeCount

abbrev DartOf (g : FlowGraph K) : Type := Dart g.nodeCount g.arcCount

variable (g : FlowGraph K)

/-- A node of the network as a node of the flow graph. -/
def inner (v : Fin g.order) : g.Node := ⟨v, by simp only [nodeCount]; omega⟩

/-- The super-source. -/
def source : g.Node := ⟨g.order, by simp only [nodeCount]; omega⟩

/-- The super-target. -/
def target : g.Node := ⟨g.order + 1, by simp only [nodeCount]; omega⟩

def split (k : Fin g.splits.size) : g.Node :=
  ⟨g.order + 2 + k, by simp only [nodeCount]; omega⟩

def isTerminal (v : g.Node) : Bool := v = g.source ∨ v = g.target

def node? (v : Nat) : Option g.Node := if h : v < g.nodeCount then some ⟨v, h⟩ else none

/-- The arcs leaving a node. -/
def leaving (v : g.Node) : List g.DartOf :=
  (g.outgoing.row v).map fun i => ⟨g.arcs[i].head, i, false⟩

/-- The arcs entering a node. -/
def entering (v : g.Node) : List g.DartOf := (g.incoming.row v).map fun place => g.byHead[place]

def darts (v : g.Node) : List g.DartOf := g.leaving v ++ g.entering v

def degree (v : g.Node) : Nat := (g.darts v).length

end FlowGraph

/-- A flow on each arc of a flow graph. -/
abbrev FlowGraph.Flow {K : Type} (g : FlowGraph K) : Type := Vector K g.arcCount

/-- An arc of the network that carries flow. -/
structure ArcFlow (K : Type) where
  tail : Nat
  head : Nat
  amount : K

namespace FlowGraph

variable {K : Type} [Quantity K] (g : FlowGraph K)

/-- Nothing flows, except that the arcs leaving the super-target are saturated. -/
def initialFlow : g.Flow :=
  Vector.ofFn fun i => if g.arcs[i].tail = g.target then g.arcs[i].capacity else 0

/-- What can still be sent along a dart, away from the node from which it is seen. -/
def residual (flow : g.Flow) (d : g.DartOf) : K :=
  if d.reversed then flow[d.arc] else g.arcs[d.arc].capacity - flow[d.arc]

/-- What can still be sent along a dart towards the node from which it is seen. -/
def reverseResidual (flow : g.Flow) (d : g.DartOf) : K :=
  if d.reversed then g.arcs[d.arc].capacity - flow[d.arc] else flow[d.arc]

/-- Sends an amount along a dart, away from the node from which it is seen. -/
def push (flow : g.Flow) (d : g.DartOf) (amount : K) : g.Flow :=
  flow.put d.arc (flow[d.arc] + if d.reversed then -amount else amount)

/-- What leaves the super-source. -/
def supplied (flow : g.Flow) : K := Quantity.total ((g.leaving g.source).map fun d => flow[d.arc])

/-- What reaches the super-target. -/
def delivered (flow : g.Flow) : K :=
  Quantity.total ((g.leaving g.target).map fun d => g.arcs[d.arc].capacity - flow[d.arc])

/-- The arcs leaving a node that lead to nodes of the network and carry flow. -/
def flowsFrom (flow : g.Flow) (tail : Nat) (v : g.Node) : List (ArcFlow K) :=
  (g.leaving v).filterMap fun d =>
    let amount : K := flow[d.arc]
    if d.other < g.order ∧ 0 < amount then some ⟨tail, d.other, amount⟩ else none

/-- The arcs of the network that carry flow: those of each node in turn, then those
of the nodes that were split. -/
def flows (flow : g.Flow) : List (ArcFlow K) :=
  (List.finRange g.order).flatMap (fun v : Fin g.order => g.flowsFrom flow v (g.inner v)) ++
    (List.finRange g.splits.size).flatMap
      (fun k : Fin g.splits.size => g.flowsFrom flow g.splits[k] (g.split k))

end FlowGraph

end PushRelabel
