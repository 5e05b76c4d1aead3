import PushRelabel.Fault
import PushRelabel.Quantity
import PushRelabel.Room

/-! # Networks

A network is a directed graph with a capacity on each arc. Nodes are the numbers
below its order; parallel arcs and loops are allowed, and the arcs leaving a node
keep the order in which they were added. Capacities are not checked here. A network
grows only as far as there is room for its nodes.
-/

namespace PushRelabel

/-- An arc with its capacity, as callers name it. -/
structure Arc (K : Type) where
  tail : Nat
  head : Nat
  capacity : K

structure Network (K : Type) where
  arcCount : Nat
  /-- The head and the capacity of each arc leaving a node. -/
  rows : Array (Array (Nat × K))
  heads_lt : ∀ row ∈ rows, ∀ a ∈ row, a.1 < rows.size

namespace Network

variable {K : Type}

/-- The number of nodes. -/
def order (net : Network K) : Nat := net.rows.size

def ofOrder (order : Nat) : Network K where
  arcCount := 0
  rows := Array.replicate order #[]
  heads_lt := by
    intro row hrow a ha
    obtain ⟨_, rfl⟩ := Array.mem_replicate.mp hrow
    simp at ha

def empty : Network K := ofOrder 0

/-- A network without arcs, if there is room for its nodes. -/
def allocate (order : Nat) : Except Fault (Network K) :=
  Room.claim Room.rowBytes order fun _ => ofOrder order

/-- Adds isolated nodes until `node` exists. -/
def growTo (net : Network K) (node : Nat) : Network K where
  arcCount := net.arcCount
  rows := net.rows ++ Array.replicate (node + 1 - net.rows.size) #[]
  heads_lt := by
    intro row hrow a ha
    rcases Array.mem_append.mp hrow with h | h
    · have := net.heads_lt row h a ha
      simp only [Array.size_append]
      omega
    · obtain ⟨_, rfl⟩ := Array.mem_replicate.mp h
      simp at ha

/-- Whether a node exists, or there is room for it and for all nodes before it. -/
def CanHold (net : Network K) (node : Nat) : Prop :=
  node < net.order ∨ Room.Holds Room.rowBytes (node + 1)

instance (net : Network K) (node : Nat) : Decidable (net.CanHold node) :=
  inferInstanceAs (Decidable (_ ∨ _))

/-- Adds a node, with all nodes before it, and tells whether it is new. -/
def addNode (node : Nat) : EStateM Fault (Network K) Bool := fun net =>
  if net.CanHold node then .ok (net.order ≤ node) (net.growTo node) else .error .noRoom net

/-- Adds an arc between nodes that exist, after the arcs that leave its tail already. -/
def insertArc (net : Network K) (arc : Arc K) (h : arc.head < net.rows.size) : Network K where
  arcCount := net.arcCount + 1
  rows := net.rows.modify arc.tail (·.push (arc.head, arc.capacity))
  heads_lt := by
    intro row hrow a ha
    obtain ⟨i, hi, rfl⟩ := Array.mem_iff_getElem.mp hrow
    simp only [Array.size_modify] at hi ⊢
    rw [Array.getElem_modify] at ha
    split at ha
    · rcases Array.mem_push.mp ha with ha | rfl
      · exact net.heads_lt _ (Array.getElem_mem hi) a ha
      · exact h
    · exact net.heads_lt _ (Array.getElem_mem hi) a ha

def addArc (net : Network K) (arc : Arc K) : Except Fault (Network K) :=
  if h : max arc.tail arc.head < net.order then
    .ok (net.insertArc arc (by simp only [order] at h; omega))
  else .error (.missingNode (max arc.tail arc.head) net.order)

/-- Adds an arc, and before it the nodes that it needs. -/
def growArc (net : Network K) (arc : Arc K) : Network K :=
  (net.growTo (max arc.tail arc.head)).insertArc arc (by
    simp only [growTo, Array.size_append, Array.size_replicate]
    omega)

/-- Adds an arc, if there is room for the nodes that it needs. -/
def receive (net : Network K) (arc : Arc K) : Except Fault (Network K) :=
  if net.CanHold (max arc.tail arc.head) then .ok (net.growArc arc) else .error .noRoom

/-- Adds arcs one after the other. Those before one that is refused stay. -/
def addArcs : List (Arc K) → EStateM Fault (Network K) Unit
  | [] => pure ()
  | arc :: arcs => fun net =>
      match net.receive arc with
      | .ok net => addArcs arcs net
      | .error f => .error f net

/-- The order is one more than the largest node named by an arc. -/
def ofArcs (arcs : List (Arc K)) : Except Fault (Network K) := arcs.foldlM receive empty

/-- All arcs get the same capacity. -/
def ofPairs (capacity : K) (pairs : List (Nat × Nat)) : Except Fault (Network K) :=
  ofArcs (pairs.map fun p => ⟨p.1, p.2, capacity⟩)

/-- The arcs leaving a node, each with its head and its capacity. -/
def successors (net : Network K) (node : Nat) : Except Fault (List (Nat × K)) :=
  match net.rows[node]? with
  | some row => .ok row.toList
  | none => .error .indexOutOfRange

def outdegree (net : Network K) (node : Nat) : Except Fault Nat :=
  (net.successors node).map List.length

/-- The node that an external identifier stands for. -/
def node? (net : Network K) (id : Nat) : Option (Fin net.order) :=
  if h : id < net.order then some ⟨id, h⟩ else none

/-- The arcs leaving a node, with their heads known to be nodes. -/
def outgoing (net : Network K) (node : Fin net.order) : List (Fin net.order × K) :=
  have isNode : node.val < net.rows.size := node.isLt
  net.rows[node.val].toList.attach.map fun ⟨a, h⟩ =>
    (⟨a.1, net.heads_lt _ (Array.getElem_mem _) a (Array.mem_toList_iff.mp h)⟩, a.2)

/-- The arcs leaving a node that are not loops. -/
def proper (net : Network K) (node : Fin net.order) : List (Fin net.order × K) :=
  (net.outgoing node).filter fun a => a.1 ≠ node

/-- What the arcs leaving a node carry together; loops carry nothing out of it. -/
def outCapacity [Quantity K] (net : Network K) (node : Fin net.order) : K :=
  Quantity.total ((net.proper node).map Prod.snd)

instance [BEq K] : BEq (Network K) where
  beq a b := a.arcCount == b.arcCount && a.rows == b.rows

@[simp] theorem order_ofOrder (order : Nat) : (ofOrder order : Network K).order = order := by
  simp [ofOrder, Network.order]

theorem order_growTo (net : Network K) (node : Nat) :
    (net.growTo node).order = max net.order (node + 1) := by
  simp only [order, growTo, Array.size_append, Array.size_replicate]
  omega

theorem order_insertArc (net : Network K) (arc : Arc K) (h : arc.head < net.rows.size) :
    (net.insertArc arc h).order = net.order := by
  simp [insertArc, order]

theorem order_growArc (net : Network K) (arc : Arc K) :
    (net.growArc arc).order = max net.order (max arc.tail arc.head + 1) := by
  rw [growArc, order_insertArc, order_growTo]

end Network

end PushRelabel
