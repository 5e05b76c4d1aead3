import PushRelabel.Network
import PushRelabel.Random

/-! # Uniform random networks

Every node gets the same number of arcs, to heads drawn uniformly among the other
nodes, with capacities drawn uniformly below a bound. The seed determines all.
-/

namespace PushRelabel.Network

structure Uniform where
  order : Nat
  outdegree : Nat
  bound : Float
  seed : UInt64

namespace Uniform

/-- A node other than `node`: a draw among one node less, moved past `node`. -/
def drawHead (order node : Nat) : StateM Random Nat := do
  let drawn ← Random.below (order - 1)
  return if drawn ≥ node then drawn + 1 else drawn

def drawArc (spec : Uniform) (node : Nat) : StateM Random (Arc Float) := do
  let head ← drawHead spec.order node
  let capacity ← Random.upTo spec.bound
  return ⟨node, head, capacity⟩

/-- The tails of the arcs, in the order in which they are drawn. -/
def tails (spec : Uniform) : List Nat :=
  if spec.order < 2 then []
  else (List.range spec.order).flatMap (List.replicate spec.outdegree)

def arcs (spec : Uniform) : List (Arc Float) :=
  ((spec.tails.mapM spec.drawArc).run (Random.ofSeed spec.seed)).1

def generate (spec : Uniform) : Except Fault (Network Float) :=
  if 0.0 < spec.bound ∧ spec.bound.isFinite then do
    let net ← allocate spec.order
    spec.arcs.foldlM addArc net
  else .error (.capacityBound spec.bound)

end Uniform

end PushRelabel.Network
