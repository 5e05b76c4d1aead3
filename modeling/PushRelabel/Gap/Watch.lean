import PushRelabel.Gap.Detector
import PushRelabel.Room

/-! # Watched labels

A detector next to the labels that it watches, for callers that may name nodes and
labels that do not exist. Such a request stops at the first access out of range;
what was changed until then stays changed.
-/

namespace PushRelabel

structure Watch (sentinel : Nat) where
  detector : GapDetector sentinel
  labels : Array Nat

namespace Watch

variable {sentinel : Nat}

/-- How many entries the tables of a strategy have. -/
def tableSize (sentinel : Nat) : GapStrategy → Nat
  | .counts | .buckets => sentinel
  | _ => 0

def start (strategy : GapStrategy) (labels : Array Nat) : Except Fault (Watch sentinel) :=
  Room.claim Word.bytes (tableSize sentinel strategy) fun _ => ⟨.ofStrategy strategy, labels⟩

/-- Only buckets have tables indexed by node, with one entry for each label. -/
def hasEntry (w : Watch sentinel) (node : Nat) : Bool :=
  match w.detector with
  | .buckets _ => node < sentinel
  | _ => true

def tracks (sentinel old new : Nat) : Bool := old < sentinel ∨ new < sentinel

def reset : EStateM Fault (Watch sentinel) Unit := fun w =>
  let after := { w with detector := w.detector.reset w.labels }
  if w.labels.toList.zipIdx.all fun a => sentinel ≤ a.1 ∨ w.hasEntry a.2 then .ok () after
  else .error .indexOutOfRange after

def setLabel (node label : Nat) : EStateM Fault (Watch sentinel) Unit := fun w =>
  if h : node < w.labels.size then .ok () { w with labels := w.labels.set node label h }
  else .error .indexOutOfRange w

def labelOf (node : Nat) : EStateM Fault (Watch sentinel) Nat := fun w =>
  match w.labels[node]? with
  | some label => .ok label w
  | none => .error .indexOutOfRange w

/-- Tells the detector of a change, without making it. -/
def record (node old new : Nat) : EStateM Fault (Watch sentinel) Bool := fun w =>
  if w.hasEntry node ∨ ¬ tracks sentinel old new then
    let (detector, emptied) := w.detector.move node old new
    .ok emptied { w with detector := detector }
  else .error .indexOutOfRange w

def move (node label : Nat) : EStateM Fault (Watch sentinel) Bool := do
  let old ← labelOf node
  setLabel node label
  record node old label

/-- Gives the sentinel label to nodes one after the other. -/
def retireAll : List Nat → EStateM Fault (Watch sentinel) Unit
  | [] => pure ()
  | node :: rest => do
      setLabel node sentinel
      retireAll rest

/-- Retires the nodes of the buckets of some labels, emptying one after the other. -/
def retireBuckets (b : Gap.Buckets sentinel) : List Nat → EStateM Fault (Watch sentinel) Unit
  | [] => pure ()
  | label :: rest => do
      let nodes := (b.bucket label).map Fin.val
      let b := b.clear label
      modify fun w => { w with detector := .buckets b }
      retireAll nodes
      retireBuckets b rest

/-- Whether the bounds of a scan of the labels above a gap are words. -/
def canScan (w : Watch sentinel) (gap : Nat) : Bool :=
  match w.detector with
  | .none => true
  | .buckets _ => gap < Word.largest ∧ 0 < sentinel
  | _ => gap < Word.largest

/-- Retires all nodes above a label, and returns how many there were. -/
def retire (gap : Nat) : EStateM Fault (Watch sentinel) Nat := do
  let w ← get
  if ¬ w.canScan gap then throw .overflow
  let (detector, nodes) := w.detector.takeAbove gap w.labels
  match w.detector with
  | .buckets b => retireBuckets b (b.labelsAbove gap)
  | _ =>
      set { w with detector := detector }
      retireAll nodes
  modify fun w => { w with detector := detector }
  return nodes.length

/-- The strategies that keep tables indexed by label have no entry at the sentinel. -/
def isEmptyAt (label : Nat) : EStateM Fault (Watch sentinel) Bool := fun w =>
  match w.detector with
  | .counts _ | .buckets _ =>
      if label < sentinel then .ok (w.detector.isEmptyAt label) w else .error .indexOutOfRange w
  | _ => .ok (w.detector.isEmptyAt label) w

/-- The labels below the sentinel that no node has. -/
def emptyLabels (w : Watch sentinel) : List Nat :=
  (List.range sentinel).filter w.detector.isEmptyAt

end Watch

end PushRelabel
