import PushRelabel.Table

/-! # Label buckets

A list of nodes for each label below the sentinel, doubly linked through two
tables indexed by node, so that a node leaves its list without a search. The
links of nodes in no list are stale and never followed.
-/

namespace PushRelabel.Gap

structure Buckets (sentinel : Nat) where
  /-- The first node of each list. -/
  heads : Vector (Option (Fin sentinel)) sentinel
  next : Vector (Option (Fin sentinel)) sentinel
  prev : Vector (Option (Fin sentinel)) sentinel
  /-- No list above this label has nodes. -/
  top : Nat

namespace Buckets

variable {sentinel : Nat}

def empty : Buckets sentinel :=
  { heads := Vector.replicate sentinel none
    next := Vector.replicate sentinel none
    prev := Vector.replicate sentinel none
    top := 0 }

/-- Puts a node in front of the list of a label. -/
def insert (b : Buckets sentinel) (node label : Fin sentinel) : Buckets sentinel :=
  let first := b.heads[label]
  let prev := b.prev.put node none
  { heads := b.heads.put label (some node)
    next := b.next.put node first
    prev := match first with
      | some f => prev.put f (some node)
      | none => prev
    top := max b.top label }

/-- Takes a node out of the list of its label. -/
def remove (b : Buckets sentinel) (node label : Fin sentinel) : Buckets sentinel :=
  let before := b.prev[node]
  let after := b.next[node]
  { heads := match before with
      | some _ => b.heads
      | none => b.heads.put label after
    next := match before with
      | some p => b.next.put p after
      | none => b.next
    prev := match after with
      | some a => b.prev.put a before
      | none => b.prev
    top := b.top }

def isEmptyAt (b : Buckets sentinel) (label : Nat) : Bool :=
  if h : label < sentinel then b.heads[label].isNone else false

def insertAt (b : Buckets sentinel) (node label : Nat) : Buckets sentinel :=
  if h : node < sentinel ∧ label < sentinel then b.insert ⟨node, h.1⟩ ⟨label, h.2⟩ else b

def removeAt (b : Buckets sentinel) (node label : Nat) : Buckets sentinel :=
  if h : node < sentinel ∧ label < sentinel then b.remove ⟨node, h.1⟩ ⟨label, h.2⟩ else b

/-- Inserts the nodes in ascending order. -/
def reset (b : Buckets sentinel) (labels : Array Nat) : Buckets sentinel :=
  (List.range labels.size).foldl (fun b node => b.insertAt node (labels.getD node sentinel))
    { b with heads := Vector.replicate sentinel none, top := 0 }

/-- Records that a node changed its label, and tells whether the old one is left
without nodes. -/
def move (b : Buckets sentinel) (node old new : Nat) : Buckets sentinel × Bool :=
  let b := (b.removeAt node old).insertAt node new
  (b, b.isEmptyAt old)

/-- The nodes from one on, following the links. -/
def follow (b : Buckets sentinel) : Nat → Option (Fin sentinel) → List (Fin sentinel)
  | 0, _ => []
  | _ + 1, none => []
  | fuel + 1, some node => node :: follow b fuel b.next[node]

/-- The list of a label; it has at most as many nodes as there are. -/
def bucket (b : Buckets sentinel) (label : Nat) : List (Fin sentinel) :=
  if h : label < sentinel then b.follow sentinel b.heads[label] else []

def clear (b : Buckets sentinel) (label : Nat) : Buckets sentinel :=
  { b with heads := b.heads.setIfInBounds label none }

/-- The labels above one whose lists may have nodes, in ascending order. -/
def labelsAbove (b : Buckets sentinel) (gap : Nat) : List Nat :=
  List.range' (gap + 1) (min b.top (sentinel - 1) - gap)

/-- Empties the lists above a label, and returns their nodes by ascending label. -/
def takeAbove (b : Buckets sentinel) (gap : Nat) : Buckets sentinel × List Nat :=
  let labels := b.labelsAbove gap
  let taken := labels.flatMap fun label => (b.bucket label).map Fin.val
  ({ labels.foldl clear b with top := min b.top gap }, taken)

end Buckets

end PushRelabel.Gap
