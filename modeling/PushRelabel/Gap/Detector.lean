import PushRelabel.Gap.Buckets
import PushRelabel.Gap.Counts
import PushRelabel.Gap.Ordered

/-! # Gap detectors

If labels are lower bounds of distances and no node has a certain label, then no
node above it can reach the sink, since a path lowers labels by at most one at
each step. A detector follows the changes of labels, notices when a label is left
without nodes, and finds the nodes above it. The three kinds differ in what they
keep. Nodes at the sentinel are never tracked.
-/

namespace PushRelabel

/-- How gaps are detected. -/
inductive GapStrategy where
  | none
  | counts
  | buckets
  | sortedSet
deriving DecidableEq

namespace GapStrategy

def name : GapStrategy → String
  | none => "none"
  | counts => "counts"
  | buckets => "buckets"
  | sortedSet => "sorted set"

end GapStrategy

inductive GapDetector (sentinel : Nat) where
  | none
  | counts (c : Gap.Counts sentinel)
  | buckets (b : Gap.Buckets sentinel)
  | sortedSet (o : Gap.Ordered)

namespace GapDetector

variable {sentinel : Nat}

def ofStrategy : GapStrategy → GapDetector sentinel
  | .none => none
  | .counts => counts .zero
  | .buckets => buckets .empty
  | .sortedSet => sortedSet .empty

/-- Starts again from the labels of all nodes. -/
def reset (d : GapDetector sentinel) (labels : Array Nat) : GapDetector sentinel :=
  match d with
  | none => none
  | counts _ => counts (.reset labels)
  | buckets b => buckets (b.reset labels)
  | sortedSet _ => sortedSet (.reset sentinel labels)

/-- Records that a node changed its label, and tells whether no node has the old
one any more. Leaving the sentinel never does. -/
def move (d : GapDetector sentinel) (node old new : Nat) : GapDetector sentinel × Bool :=
  match d with
  | none => (none, false)
  | counts c => ((c.move old new).map counts id)
  | buckets b => ((b.move node old new).map buckets id)
  | sortedSet o => ((o.move sentinel node old new).map sortedSet id)

/-- Stops tracking the nodes above a label, and returns them. The labels are those
of all nodes; what happens to them is up to the caller. -/
def takeAbove (d : GapDetector sentinel) (gap : Nat) (labels : Array Nat) :
    GapDetector sentinel × List Nat :=
  match d with
  | none => (none, [])
  | counts c => (counts (c.clearAbove gap), Gap.Counts.nodesAbove gap sentinel labels)
  | buckets b => (b.takeAbove gap).map buckets id
  | sortedSet o => (o.takeAbove gap).map sortedSet id

/-- Whether no node has a label. Without detection there is no telling. -/
def isEmptyAt (d : GapDetector sentinel) (label : Nat) : Bool :=
  match d with
  | none => false
  | counts c => c.isEmptyAt label
  | buckets b => b.isEmptyAt label
  | sortedSet o => o.isEmptyAt label

end GapDetector

end PushRelabel
