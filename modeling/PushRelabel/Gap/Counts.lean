/-! # Label counters

The number of nodes with each label below the sentinel. Only the numbers are
kept, so the nodes above a label are found by a scan of all labels. A counter
may go below zero if changes are recorded that never happened.
-/

namespace PushRelabel.Gap

structure Counts (sentinel : Nat) where
  counts : Vector Int sentinel

namespace Counts

variable {sentinel : Nat}

def zero : Counts sentinel := ⟨Vector.replicate sentinel 0⟩

/-- Changes the number of nodes with a label; the sentinel has no counter. -/
def adjust (c : Counts sentinel) (label : Nat) (delta : Int) : Counts sentinel :=
  if h : label < sentinel then ⟨c.counts.set label (c.counts[label] + delta) h⟩ else c

def isEmptyAt (c : Counts sentinel) (label : Nat) : Bool :=
  if h : label < sentinel then c.counts[label] == 0 else false

def reset (labels : Array Nat) : Counts sentinel :=
  labels.foldl (fun c label => c.adjust label 1) zero

/-- Records that one node changed its label, and tells whether it was the last one
with the old label. -/
def move (c : Counts sentinel) (old new : Nat) : Counts sentinel × Bool :=
  let c := (c.adjust new 1).adjust old (-1)
  (c, c.isEmptyAt old)

/-- Forgets all nodes above a label. -/
def clearAbove (c : Counts sentinel) (gap : Nat) : Counts sentinel :=
  ⟨c.counts.mapIdx fun label count => if gap < label then 0 else count⟩

/-- The nodes with labels strictly between a label and the sentinel. -/
def nodesAbove (gap sentinel : Nat) (labels : Array Nat) : List Nat :=
  (List.range labels.size).filter fun v => gap < labels.getD v 0 ∧ labels.getD v 0 < sentinel

theorem getElem_adjust (c : Counts sentinel) (label : Nat) (delta : Int) {l : Nat}
    (hl : l < sentinel) :
    (c.adjust label delta).counts[l] = c.counts[l] + if label = l then delta else 0 := by
  unfold adjust
  split
  · rw [Vector.getElem_set]
    split
    · rename_i heq
      subst heq
      rfl
    · simp
  · have hne : label ≠ l := by
      intro heq
      subst heq
      contradiction
    simp [hne]

end Counts

end PushRelabel.Gap
