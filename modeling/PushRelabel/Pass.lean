import PushRelabel.Distance
import PushRelabel.Journal
import PushRelabel.Preflow

/-! # Passes

A pass moves excess from a source towards a sink. What every way of doing so keeps
is here: the preflow, the search that recomputes its labels, the work done since
it last did, the tally and the journal.
-/

namespace PushRelabel

variable {K : Type}

structure Pass (g : FlowGraph K) extends Preflow g where
  search : Search g.nodeCount
  /-- The work since the labels were recomputed. -/
  work : Nat
  tally : Tally
  journal : Journal K

namespace Pass

variable {g : FlowGraph K}

def start (batch : Nat) (p : Preflow g) (journal : Journal K) : Pass g where
  toPreflow := p
  search := .ofBatch batch g.source
  work := 0
  tally := .zero
  journal := journal

def running (p : Pass g) : Bool := p.journal.running

def record (p : Pass g) (e : Event K) : Pass g := { p with journal := p.journal.record e }

/-- The work of a discharge: the degree of the node, and a constant. -/
def effort (g : FlowGraph K) (v : g.Node) : Nat := g.degree v + 12

/-- The work after which labels are recomputed. It grows with the graph and falls
with the frequency; beyond the words it is cut off. -/
def threshold (g : FlowGraph K) (frequency : Float) : Nat :=
  (Float.ofNat (6 * g.nodeCount + g.arcCount) / frequency).toUInt64.toNat

variable [Quantity K]

/-- Recomputes the labels from scratch. -/
def relabel (source sink : g.Node) : EStateM Halt (Pass g) Unit := do
  modify (·.record .relabelStarted)
  let p ← get
  let largest ← onPart (fun p : Pass g => (p.search, p.labels))
    (fun p (search, labels) => { p with search := search, labels := labels })
    (Search.run g p.flow p.running source sink)
  modify fun p =>
    { p.record (.relabelFinished largest) with
      tally := { p.tally with globalRelabelings := p.tally.globalRelabelings + 1 }
      work := 0 }

end Pass

end PushRelabel
