import PushRelabel.Word

/-! # Granularity

How many nodes a task claims at a time: a number of its own, or as many as have a
given number of arcs at the average degree of the graph. It is never zero.
-/

namespace PushRelabel

inductive Granularity where
  | nodes (count : Nat)
  | arcs (count : Nat)

namespace Granularity

def default : Granularity := nodes 1024

/-- The number of nodes for a graph with a given number of nodes and arcs. -/
def batch (g : Granularity) (nodeCount arcCount : Nat) : Nat :=
  match g with
  | nodes count => max count 1
  | arcs count =>
      let degree := Float.ofNat arcCount / Float.ofNat (max nodeCount 1)
      if degree == 0.0 then max count 1
      else
        let exact := Float.ofNat count / degree
        let capped := if exact < Float.ofNat Word.size then exact else Float.ofNat Word.size
        max capped.ceil.toUInt64.toNat 1

theorem one_le_batch (g : Granularity) (nodeCount arcCount : Nat) :
    1 ≤ g.batch nodeCount arcCount := by
  unfold batch
  split
  · exact Nat.le_max_right _ _
  · dsimp only
    split
    · exact Nat.le_max_right _ _
    · exact Nat.le_max_right _ _

end Granularity

end PushRelabel
