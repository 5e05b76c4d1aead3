import PushRelabel.FlowGraph
import PushRelabel.Halt

/-! # Distances to the sink

A breadth-first search from the sink along residual darts in reverse gives every
node its exact distance. It proceeds by layers: the nodes of a layer are handed
out in batches, and the nodes found from them are the next layer. The source
counts as found from the start, so paths through it are not considered; the
source and the nodes that are not reached keep the sentinel label, the number of
nodes.
-/

namespace PushRelabel

/-- What a search leaves for the next one to use again. -/
structure Search (n : Nat) where
  frontier : WorkingSet (Fin n)
  found : Vector Bool n
  /-- How many nodes are handed out at a time. -/
  batch : Nat

namespace Search

def ofBatch {n : Nat} (batch : Nat) (blank : Fin n) : Search n :=
  ⟨.ofCapacity n blank, Vector.replicate n false, max batch 1⟩

/-- The labels given so far, and the nodes found in the current layer. -/
structure Progress (n : Nat) where
  labels : Vector Nat n
  found : Vector Bool n
  next : Array (Fin n)

abbrev State (n : Nat) : Type := WorkingSet (Fin n) × Progress n

variable {K : Type} [Quantity K] (g : FlowGraph K)

/-- Finds the node at the other side of a dart, if it can send something here. -/
def visitDart (flow : g.Flow) (distance : Nat) (p : Progress g.nodeCount) (d : g.DartOf) :
    Progress g.nodeCount :=
  if 0 < g.reverseResidual flow d ∧ p.found[d.other] = false then
    { labels := p.labels.put d.other distance
      found := p.found.put d.other true
      next := p.next.push d.other }
  else p

def visitNode (flow : g.Flow) (distance : Nat) (v : g.Node) (p : Progress g.nodeCount) :
    Progress g.nodeCount :=
  (g.darts v).foldl (visitDart g flow distance) p

/-- Makes the nodes found the next frontier. -/
def nextLayer : EStateM Halt (State g.nodeCount) Unit := do
  let next := (← get).2.next.toList
  modify fun (w, p) => (w.reset, { p with next := #[] })
  onSet (WorkingSet.pushAll next)

/-- Visits layer after layer, and returns the distance of the last one. -/
def explore (flow : g.Flow) (batch : Nat) (running : Bool) :
    Nat → Nat → EStateM Halt (State g.nodeCount) Nat
  | 0, _ => throw .outOfFuel
  | fuel + 1, distance => do
      WorkingSet.consume batch running (visitNode g flow (distance + 1))
      nextLayer g
      if (← get).1.isEmpty then return distance
      else explore flow batch running fuel (distance + 1)

/-- The labels before a search. Without a sink no node has one. -/
def blankLabels (sink : Option g.Node) : Vector Nat g.nodeCount :=
  let labels := Vector.replicate g.nodeCount g.nodeCount
  match sink with
  | some v => labels.put v 0
  | none => labels

/-- Only the sink has a label, and the source is not to be found. -/
def start (source sink : g.Node) : Progress g.nodeCount where
  labels := blankLabels g (some sink)
  found := ((Vector.replicate g.nodeCount false).put source true).put sink true
  next := #[]

def exploreFrom (flow : g.Flow) (batch : Nat) (running : Bool) (source sink : g.Node) :
    EStateM Halt (State g.nodeCount) Nat := do
  modify fun (w, _) => (w.reset, start g source sink)
  onSet (WorkingSet.push sink)
  explore g flow batch running g.nodeCount 0

/-- Computes the labels, whatever they were before, and returns the largest one
below the sentinel. -/
def run (flow : g.Flow) (running : Bool) (source sink : g.Node) :
    EStateM Halt (Search g.nodeCount × Vector Nat g.nodeCount) Nat := do
  let batch := (← get).1.batch
  onPart (fun (search, labels) => (search.frontier, ⟨labels, search.found, #[]⟩))
    (fun (search, _) (w, p) => ({ search with frontier := w, found := p.found }, p.labels))
    (exploreFrom g flow batch running source sink)

/-- Computes the labels for terminals that may not be nodes. -/
def runAt (flow : g.Flow) (running : Bool) (source sink : Nat) :
    EStateM Halt (Search g.nodeCount × Vector Nat g.nodeCount) Nat := do
  match g.node? source, g.node? sink with
  | some source, some sink => run g flow running source sink
  | _, sink =>
      modify fun (search, _) => (search, blankLabels g sink)
      throw (.fault .indexOutOfRange)

end Search

end PushRelabel
