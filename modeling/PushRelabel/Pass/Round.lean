import PushRelabel.Pass

/-! # What a round does to a node

In a round all active nodes are discharged against the labels and the excess that
were there at its start. New labels are staged, and changes of excess are added up
apart, until they are committed. Nodes that get excess are found once each, in the
order in which they are found.

Two nodes that could send to each other along one arc must not both do so. So a
node sends to another active node only if it wins the dart, which depends on their
labels at the start of the round and on nothing else.
-/

namespace PushRelabel

variable {K : Type}

structure Round (g : FlowGraph K) extends Pass g where
  /-- The new label of each node that was discharged. -/
  staged : Vector Nat g.nodeCount
  /-- The change of excess that is not committed yet. -/
  added : Vector K g.nodeCount
  discovered : Vector Bool g.nodeCount
  /-- The nodes that were discovered, in that order. -/
  found : Array g.Node
  /-- Without counters gaps are not detected. -/
  counts : Option (Gap.Counts g.nodeCount)
  /-- The labels that lost their last node. -/
  emptied : Array Nat
  effort : Nat

namespace Round

variable {g : FlowGraph K}

/-- Forgets what a halted round has left, except for changes of excess. -/
def prepare (s : Round g) : Round g :=
  { s with
    discovered := Vector.replicate g.nodeCount false
    found := #[]
    emptied := #[]
    effort := 0 }

/-- Whether a node may send to another one that may send to it as well. -/
def wins (labels : Vector Nat g.nodeCount) (v other : g.Node) : Prop :=
  labels[v] = labels[other] + 1 ∨ labels[v] + 1 < labels[other] ∨
    (labels[v] = labels[other] ∧ v < other)

instance (labels : Vector Nat g.nodeCount) (v other : g.Node) : Decidable (wins labels v other) :=
  inferInstanceAs (Decidable (_ ∨ _ ∨ _))

/-- Two nodes do not both win against each other. -/
theorem not_wins_of_wins {labels : Vector Nat g.nodeCount} {v other : g.Node}
    (h : wins labels v other) : ¬ wins labels other v := by
  intro hback
  simp only [wins, Fin.lt_def] at h hback
  omega

def discover (s : Round g) (v : g.Node) : Round g :=
  if s.discovered[v] then s
  else { s with discovered := s.discovered.put v true, found := s.found.push v }

variable [Quantity K]

def start (strategy : GapStrategy) (p : Pass g) : Round g where
  toPass := p
  staged := Vector.replicate g.nodeCount 0
  added := Vector.replicate g.nodeCount 0
  discovered := Vector.replicate g.nodeCount false
  found := #[]
  counts := if strategy = .none then none else some .zero
  emptied := #[]
  effort := 0

/-- Notes that the excess of a node changes. -/
def add (s : Round g) (v : g.Node) (amount : K) : Round g :=
  { s with added := s.added.put v (s.added[v] + amount) }

/-- A scan of the darts of a node at one label. -/
structure Scan (g : FlowGraph K) where
  round : Round g
  /-- The excess that is left to the node. -/
  left : K
  /-- The lowest label at which another dart admits flow. -/
  next : Nat
  /-- A dart was left to the node at its other end. -/
  skipped : Bool

/-- Sends along a dart what it can take. -/
def Scan.send (s : Scan g) (sink : g.Node) (d : g.DartOf) : Scan g :=
  let amount := Quantity.least s.left (g.residual s.round.flow d)
  let round := { s.round with flow := g.push s.round.flow d amount }
  let round := round.add d.other amount
  { s with
    round := if d.other = sink then round else round.discover d.other
    left := s.left - amount }

/-- Looks at one dart of a node that has a certain label by now. -/
def Scan.visit (sink v : g.Node) (label : Nat) (s : Scan g) (d : g.DartOf) : Scan g :=
  let other := s.round.labels[d.other]
  if s.left ≤ 0 ∨ g.nodeCount ≤ other ∨ g.residual s.round.flow d ≤ 0 then s
  else if label = other + 1 then
    if d.other ≠ sink ∧ 0 < s.round.excess[d.other] ∧ ¬ wins s.round.labels v d.other then
      { s with skipped := true }
    else s.send sink d
  else if label ≤ other then { s with next := min s.next (other + 1) }
  else s

def scan (sink v : g.Node) (label : Nat) (left : K) (round : Round g) : Scan g :=
  (g.darts v).foldl (Scan.visit sink v label) ⟨round, left, g.nodeCount, false⟩

/-- Scans at higher and higher labels until the excess is gone, a dart is left to
its other end, or no dart admits flow at any label below the sentinel. Returns the
excess that is left, and the last label. -/
def climb (sink v : g.Node) (label : Nat) (left : K) (round : Round g) : Round g × K × Nat :=
  let s := scan sink v label left round
  if s.left ≤ 0 ∨ s.skipped then (s.round, s.left, label)
  else if _h : label < s.next ∧ s.next < g.nodeCount then climb sink v s.next s.left s.round
  else (s.round, s.left, s.next)
termination_by g.nodeCount - label
decreasing_by exact Nat.sub_lt_sub_left (Nat.lt_trans _h.1 _h.2) _h.1

/-- Discharges a node. If it keeps excess without being retired, it stays with the
nodes of the round. -/
def discharge (sink v : g.Node) (round : Round g) : Round g :=
  let initial := round.excess[v]
  let (round, left, label) := climb sink v round.labels[v] initial round
  let sent := initial - left
  let round := { round with
    staged := round.staged.put v label
    effort := round.effort + Pass.effort g v }
  let round := if 0 < sent then round.add v (-sent) else round
  if 0 < left ∧ label < g.nodeCount then round.discover v else round

def setLabel (round : Round g) (v : g.Node) (label : Nat) : Round g :=
  let old := round.labels[v]
  let round := { round with labels := round.labels.put v label }
  match round.counts with
  | none => round
  | some counts =>
      let (counts, emptied) := counts.move old label
      { round with
        counts := some counts
        emptied := if emptied then round.emptied.push old else round.emptied }

/-- Moves what was added to a node into its excess. -/
def settle (round : Round g) (v : g.Node) : Round g :=
  { round with
    excess := round.excess.put v (round.excess[v] + round.added[v])
    added := round.added.put v 0 }

/-- The label that a discharged node gets. A node that received excess looked at
darts that have changed since, so it is not retired. -/
def nextLabel (round : Round g) (v : g.Node) : Nat :=
  let old := round.labels[v]
  let staged := round.staged[v]
  if g.nodeCount ≤ staged ∧ old < staged ∧ round.discovered[v] then old else staged

/-- Commits what the round did to a discharged node. -/
def commit (v : g.Node) (round : Round g) : Round g :=
  let label := round.nextLabel v
  (if label = round.labels[v] then round else round.setLabel v label).settle v

/-- The smallest label that lost its last node in the round and is still without
nodes. -/
def gap? (round : Round g) : Option Nat :=
  match round.counts with
  | none => none
  | some counts => (round.emptied.toList.filter counts.isEmptyAt).min?

/-- Retires the nodes above a label that no node has. -/
def retireAbove (round : Round g) (counts : Gap.Counts g.nodeCount) (gap : Nat) : Round g :=
  let nodes := Gap.Counts.nodesAbove gap g.nodeCount round.labels.toArray
  { round with
    counts := some (counts.clearAbove gap)
    labels := nodes.foldl (fun labels v => labels.setIfInBounds v g.nodeCount) round.labels
    tally := { round.tally with gapRelabelings := round.tally.gapRelabelings + 1 }
    journal := round.journal.record (.gapFound gap nodes.length) }

/-- Closes the lowest gap that the round has left. -/
def closeGap (round : Round g) : Round g :=
  let closed := match round.counts, round.gap? with
    | some counts, some gap => round.retireAbove counts gap
    | _, _ => round
  { closed with emptied := #[] }

/-- The nodes that were discovered and are active. -/
def survivors (round : Round g) : List g.Node := round.found.toList.filter round.IsActive

/-- Settles a node that was discovered, and forgets that it was. -/
def release (round : Round g) (v : g.Node) : Round g :=
  { round with discovered := round.discovered.put v false }.settle v

def settleFound (round : Round g) : Round g := round.found.foldl release round

/-- Adds the effort of the round to the work of the pass, and settles the sink. -/
def close (sink : g.Node) (round : Round g) : Round g :=
  { round.settle sink with work := round.work + round.effort, effort := 0, found := #[] }

end Round

end PushRelabel
