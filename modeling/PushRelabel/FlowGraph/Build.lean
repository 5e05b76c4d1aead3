import PushRelabel.FlowGraph
import PushRelabel.Network
import PushRelabel.Terminals

/-! # Building flow graphs

A problem is a network with limits on nodes, sources and targets. It is checked
in a fixed order, and the first violation is reported; then the flow graph is
assembled. The super-source gets an arc to each source, with its supply, and the
super-target an arc to each target, with its demand. A limited node keeps one
arc, to its split node and with the limit as capacity; all that left it leaves
the split node instead, and its demand arc enters the split node too. Loops are
left out.
-/

namespace PushRelabel

/-- Which part of a problem is not acceptable. -/
inductive InputError (K : Type) where
  | noSources
  | noTargets
  | nodeCapacity (node : Nat) (capacity : K)
  | arcCapacity (tail head : Nat) (capacity : K)
  | terminalCapacity (id : Nat) (capacity : K)
  | unknownNode (id : Nat)
  | duplicateTerminal (node : Nat)
  | sourceIsTarget (node : Nat)

structure Problem (K : Type) where
  network : Network K
  /-- What may pass through each node, if that is limited. -/
  limits : Vector (Option K) network.order
  sources : Terminals K
  targets : Terminals K

namespace Network

variable {K : Type}

def unlimited (net : Network K) : Vector (Option K) net.order := Vector.replicate net.order none

/-- There has to be one limit for each node. -/
def limits (net : Network K) (given : Array (Option K)) :
    Except Fault (Vector (Option K) net.order) :=
  if h : given.size = net.order then .ok ⟨given, h⟩
  else .error (.nodeLimitCount given.size net.order)

variable [Quantity K]

/-- What the arcs entering each node bring together, summed in the order of the arcs. -/
def inCapacities (net : Network K) : Vector K net.order :=
  ((List.finRange net.order).flatMap net.proper).foldl
    (fun sums a => sums.put a.1 (sums[a.1] + a.2)) (Vector.replicate net.order 0)

end Network

/-- An infinite node capacity is no limit. -/
def limitOf (capacity : Float) : Option Float :=
  if capacity.isInf ∧ 0.0 < capacity then none else some capacity

namespace Problem

variable {K : Type} [Quantity K] (p : Problem K)

/-- The first node whose limit is not a capacity. -/
def badLimit? : Option (Nat × K) :=
  (List.finRange p.network.order).findSome? fun v =>
    match p.limits[v] with
    | some c => if Quantity.IsCapacity c then none else some (v.val, c)
    | none => none

/-- The first arc whose capacity is none, by tail and then in order. -/
def badArc? : Option (Arc K) :=
  (List.finRange p.network.order).findSome? fun v =>
    ((p.network.outgoing v).find? fun a => ¬ Quantity.IsCapacity a.2).map fun a =>
      ⟨v, a.1, a.2⟩

/-- The smallest node that occurs more than once. -/
def repeated? (nodes : List Nat) : Option Nat :=
  (nodes.filter fun v => 1 < nodes.count v).min?

def locate (net : Network K) (id : Nat) : Except (InputError K) (Fin net.order) :=
  match net.node? id with
  | some v => .ok v
  | none => .error (.unknownNode id)

def locateEntry (net : Network K) (entry : Nat × K) :
    Except (InputError K) (Fin net.order × K) :=
  if Quantity.IsCapacity entry.2 ∧ Quantity.isFinite entry.2 then
    (locate net entry.1).map fun v => (v, entry.2)
  else .error (.terminalCapacity entry.1 entry.2)

/-- The nodes of a set of terminals with their capacities. A terminal without one
gets what its arcs allow. -/
def locateAll (net : Network K) (ownCapacity : Fin net.order → K) :
    Terminals K → Except (InputError K) (List (Fin net.order × K))
  | .list ids => ids.mapM fun id => (locate net id).map fun v => (v, ownCapacity v)
  | .map entries => entries.mapM (locateEntry net)

def resolve (net : Network K) (ownCapacity : Fin net.order → K) (terminals : Terminals K) :
    Except (InputError K) (List (Fin net.order × K)) := do
  let located ← locateAll net ownCapacity terminals
  match repeated? (located.map fun t => t.1.val) with
  | some v => throw (.duplicateTerminal v)
  | none => return located

/-- A problem that was checked, with the capacity of each terminal. -/
structure Checked (net : Network K) where
  sources : List (Fin net.order × K)
  targets : List (Fin net.order × K)

def check : Except (InputError K) (Checked p.network) := do
  if p.sources.isEmpty then throw .noSources
  if p.targets.isEmpty then throw .noTargets
  if let some (v, c) := p.badLimit? then throw (.nodeCapacity v c)
  if let some arc := p.badArc? then throw (.arcCapacity arc.tail arc.head arc.capacity)
  let sources ← resolve p.network p.network.outCapacity p.sources
  let inCapacities := p.network.inCapacities
  let targets ← resolve p.network (fun v => inCapacities[v]) p.targets
  match sources.find? fun s => targets.any fun t => t.1 = s.1 with
  | some s => throw (.sourceIsTarget s.1)
  | none => return ⟨sources, targets⟩

/-- The limited nodes in ascending order. -/
def splits : Array (Fin p.network.order) :=
  ((List.finRange p.network.order).filter fun v => p.limits[v].isSome).toArray

/-- The limited node that a split node was split from. -/
def origin (k : Fin p.splits.size) : Fin p.network.order := p.splits[k]

/-- The nodes of the flow graph of a problem. -/
abbrev Node : Type := Fin (p.network.order + 2 + p.splits.size)

/-- Arcs between them. -/
abbrev Links : Type := List (Link (p.network.order + 2 + p.splits.size) K)

def inner (v : Fin p.network.order) : p.Node := ⟨v, by omega⟩

def superSource : p.Node := ⟨p.network.order, by omega⟩

def superTarget : p.Node := ⟨p.network.order + 1, by omega⟩

def splitNode (k : Fin p.splits.size) : p.Node := ⟨p.network.order + 2 + k, by omega⟩

/-- The node that flow leaves after it passed a node: the split node, if there is one. -/
def exit (v : Fin p.network.order) : p.Node :=
  match p.splits.finIdxOf? v with
  | some k => p.splitNode k
  | none => p.inner v

/-- The arcs of a node of the network that leave a node of the flow graph. -/
def arcsFrom (tail : p.Node) (v : Fin p.network.order) : p.Links :=
  (p.network.proper v).map fun a => ⟨tail, p.inner a.1, a.2⟩

def innerArcs (v : Fin p.network.order) : p.Links :=
  match p.limits[v] with
  | some limit => [⟨p.inner v, p.exit v, limit⟩]
  | none => p.arcsFrom (p.inner v) v

def sourceArcs (c : Checked p.network) : p.Links :=
  c.sources.map fun s => ⟨p.superSource, p.inner s.1, s.2⟩

def targetArcs (c : Checked p.network) : p.Links :=
  c.targets.map fun t => ⟨p.superTarget, p.exit t.1, t.2⟩

def splitArcs (k : Fin p.splits.size) : p.Links := p.arcsFrom (p.splitNode k) (p.origin k)

/-- The arcs leaving each node. -/
def rows (c : Checked p.network) : Vector p.Links (p.network.order + 2 + p.splits.size) :=
  Vector.ofFn p.innerArcs ++ #v[p.sourceArcs c, p.targetArcs c] ++ Vector.ofFn p.splitArcs

/-- All arcs, in the order of their tails. -/
def arcs (c : Checked p.network) : p.Links := (p.rows c).toList.flatten

section Tails

variable {p}

omit [Quantity K]

theorem tail_of_mem_arcsFrom {tail : p.Node} {v : Fin p.network.order} :
    ∀ a ∈ p.arcsFrom tail v, a.tail = tail := by
  intro a ha
  obtain ⟨_, -, rfl⟩ := List.mem_map.mp ha
  rfl

theorem tail_of_mem_innerArcs {v : Fin p.network.order} :
    ∀ a ∈ p.innerArcs v, a.tail = p.inner v := by
  intro a ha
  unfold innerArcs at ha
  split at ha
  next => exact List.mem_singleton.mp ha ▸ rfl
  next => exact tail_of_mem_arcsFrom a ha

theorem tail_of_mem_rows (c : Checked p.network) (v : p.Node) :
    ∀ a ∈ (p.rows c)[v], a.tail = v := by
  simp only [rows, Vector.getElem_fin, Vector.getElem_append, Vector.getElem_ofFn]
  split
  next hv =>
    split
    next => exact tail_of_mem_innerArcs
    next hterminal =>
      have hv : v = p.superSource ∨ v = p.superTarget := by
        simp only [Fin.ext_iff, superSource, superTarget]
        omega
      intro a ha
      rcases hv with rfl | rfl
      · have ha : a ∈ p.sourceArcs c := by simpa [superSource] using ha
        obtain ⟨_, -, rfl⟩ := List.mem_map.mp ha
        rfl
      · have ha : a ∈ p.targetArcs c := by simpa [superTarget] using ha
        obtain ⟨_, -, rfl⟩ := List.mem_map.mp ha
        rfl
  next hsplit =>
    intro a ha
    refine (tail_of_mem_arcsFrom a ha).trans (Fin.ext ?_)
    simp only [splitNode]
    omega

end Tails

def assemble (c : Checked p.network) : FlowGraph K :=
  FlowGraph.ofRows p.network.order p.network.arcCount p.splits (p.rows c) (tail_of_mem_rows c)

def build : Except (InputError K) (FlowGraph K) := p.check.map p.assemble

end Problem

end PushRelabel
