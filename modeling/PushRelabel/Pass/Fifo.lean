import PushRelabel.Pass
import PushRelabel.Queue

/-! # First-in, first-out discharging

Active nodes wait in a queue. The node that is taken out is discharged: its darts
are scanned once, by ascending label of the other end, and the node is relabelled
as far as each of them needs before it sends what it can. A relabelling that
leaves a label without nodes retires all nodes above it. A node that keeps excess
after the scan cannot reach the sink any more and is retired.
-/

namespace PushRelabel

variable {K : Type}

structure Fifo (g : FlowGraph K) extends Pass g where
  gaps : GapDetector g.nodeCount
  queue : Queue g.Node
  /-- Which nodes are in the queue. -/
  queued : Vector Bool g.nodeCount

namespace Fifo

variable {g : FlowGraph K}

def start (strategy : GapStrategy) (p : Pass g) : Fifo g where
  toPass := p
  gaps := .ofStrategy strategy
  queue := .empty
  queued := Vector.replicate g.nodeCount false

/-- Adds a node to the queue, unless it is there already. -/
def enqueue (s : Fifo g) (v : g.Node) : Fifo g :=
  if s.queued[v] then s else { s with queue := s.queue.push v, queued := s.queued.put v true }

/-- Retires the nodes above a label that no node has. -/
def retireAbove (s : Fifo g) (gap : Nat) : Fifo g :=
  let (gaps, nodes) := s.gaps.takeAbove gap s.labels.toArray
  { s with
    gaps := gaps
    labels := nodes.foldl (fun labels v => labels.setIfInBounds v g.nodeCount) s.labels
    tally := { s.tally with gapRelabelings := s.tally.gapRelabelings + 1 }
    journal := s.journal.record (.gapFound gap nodes.length) }

/-- Changes the label of a node, and closes the gap that this may leave; tells
whether it did. -/
def setLabel (s : Fifo g) (v : g.Node) (label : Nat) : Fifo g × Bool :=
  let old := s.labels[v]
  let (gaps, emptied) := s.gaps.move v old label
  let s := { s with labels := s.labels.put v label, gaps := gaps }
  if emptied then (s.retireAbove old, true) else (s, false)

/-- Raises the label of a node if it is below another one. -/
def raiseLabel (s : Fifo g) (v : g.Node) (label : Nat) : Fifo g × Bool :=
  if s.labels[v] < label then s.setLabel v label else (s, false)

variable [Quantity K]

/-- The darts through which a node may send excess, by ascending label of the other
end, and in the order of the node among equal labels. The labels are kept, since
the scan does not look at later ones. -/
def candidates (s : Fifo g) (v : g.Node) : List (Nat × g.DartOf) :=
  (((g.darts v).map fun d => (s.labels[d.other], d)).filter fun c =>
    c.1 < g.nodeCount ∧ 0 < g.residual s.flow c.2).mergeSort fun a b => a.1 ≤ b.1

/-- Sends what a dart can take of the excess of a node. -/
def send (s : Fifo g) (sink v : g.Node) (d : g.DartOf) : Fifo g :=
  let amount := Quantity.least s.excess[v] (g.residual s.flow d)
  let s := { s with toPreflow := s.toPreflow.send v d amount }
  if d.other = sink then s else s.enqueue d.other

/-- Scans candidates until the excess is gone or a gap retires the node; tells
whether the latter happened. -/
def scan (sink v : g.Node) : List (Nat × g.DartOf) → Fifo g → Fifo g × Bool
  | [], s => (s, false)
  | (label, d) :: rest, s =>
      let (s, retired) := s.raiseLabel v (label + 1)
      if retired then (s, true)
      else if g.residual s.flow d ≤ 0 then scan sink v rest s
      else
        let s := s.send sink v d
        if s.excess[v] ≤ 0 then (s, false) else scan sink v rest s

def discharge (sink v : g.Node) (s : Fifo g) : Fifo g :=
  let (s, retired) := scan sink v (s.candidates v) s
  if retired = false ∧ 0 < s.excess[v] then (s.setLabel v g.nodeCount).1 else s

/-- Recomputes the labels, and lets all active nodes join the queue. -/
def relabel (source sink : g.Node) : EStateM Halt (Fifo g) Unit := do
  onPart Fifo.toPass (fun s p => { s with toPass := p }) (Pass.relabel source sink)
  modify fun s =>
    (s.active source sink).foldl enqueue { s with gaps := s.gaps.reset s.labels.toArray }

/-- Takes the next node from the queue; false if there is none. A node that was
retired while it waited is passed over. -/
def step (threshold : Nat) (source sink : g.Node) : EStateM Halt (Fifo g) Bool := do
  match (← get).queue.pop? with
  | none => return false
  | some (v, queue) =>
      modify fun s => { s with queue := queue, queued := s.queued.put v false }
      if (← get).labels[v] < g.nodeCount then
        checkRunning (← get).running
        modify fun s =>
          let s := s.discharge sink v
          { s with
            tally := { s.tally with discharges := s.tally.discharges + 1 }
            work := s.work + Pass.effort g v }
        if threshold < (← get).work then relabel source sink
      return true

/-- Discharges until no node other than the terminals is active. -/
def run (threshold fuel : Nat) (source sink : g.Node) : EStateM Halt (Fifo g) Unit := do
  modify fun s => { s with queue := .empty, queued := Vector.replicate g.nodeCount false }
  relabel source sink
  modify fun s =>
    { s with journal := s.journal.record (.dischargeStarted .sequential s.queue.length sink) }
  iterate (step threshold source sink) fuel

end Fifo

end PushRelabel
