import PushRelabel.Pass.Round

/-! # Discharging in rounds

The active nodes are in a working set. A round consumes it twice, in the same
batches: to discharge its nodes and to commit what that did. Then it is filled
with the nodes that are active now. When it runs empty after a round, labels may
be too high, so the pass ends only if relabelling finds no active node either.
-/

namespace PushRelabel

variable {K : Type}

structure Rounds (g : FlowGraph K) extends Round g where
  workingSet : WorkingSet g.Node
  /-- How many nodes are handed out at a time. -/
  batch : Nat
  /-- No round was run since the labels were recomputed. -/
  exact : Bool

namespace Rounds

variable {g : FlowGraph K}

/-- Empties the working set and fills it with some nodes. -/
def refill (nodes : List g.Node) : EStateM Halt (Rounds g) Unit :=
  onPart (fun s => (s.workingSet.reset, ())) (fun s (w, _) => { s with workingSet := w })
    (onSet (WorkingSet.pushAll nodes))

/-- Visits the nodes of the working set in batches. -/
def forEach (running : Bool) (visit : g.Node → Round g → Round g) :
    EStateM Halt (Rounds g) Unit := do
  onPart (fun s : Rounds g => (s.workingSet, s.toRound))
    (fun s (w, round) => { s with workingSet := w, toRound := round })
    (WorkingSet.consume (← get).batch running visit)

variable [Quantity K]

def start (strategy : GapStrategy) (batch : Nat) (p : Pass g) : Rounds g where
  toRound := .start strategy p
  workingSet := .ofCapacity g.nodeCount g.source
  batch := batch
  exact := false

/-- Recomputes the labels, and makes all active nodes the working set. -/
def relabel (source sink : g.Node) : EStateM Halt (Rounds g) Unit := do
  onPart (fun s => s.toPass) (fun s p => { s with toPass := p }) (Pass.relabel source sink)
  modify fun s => { s with counts := s.counts.map fun _ => .reset s.labels.toArray }
  refill ((← get).active source sink)
  modify fun s => { s with exact := true }

/-- Discharges the nodes of the working set at the same time. -/
def discharge (sink : g.Node) : EStateM Halt (Rounds g) Unit := do
  modify fun s =>
    { s with
      exact := false
      tally := { s.tally with discharges := s.tally.discharges + s.workingSet.size } }
  forEach (← get).running (Round.discharge sink)
  modify fun s => { s with workingSet := s.workingSet.rewind }
  forEach true Round.commit

/-- Retires the nodes above a gap, and refills the working set with the nodes that
were discovered and are active. -/
def renew (sink : g.Node) : EStateM Halt (Rounds g) Unit := do
  modify fun s => { s with toRound := s.toRound.closeGap.settleFound }
  refill (← get).survivors
  modify fun s => { s with toRound := s.toRound.close sink }

/-- Runs a round, or relabels if there is no active node; false if the pass is over. -/
def step (threshold : Nat) (source sink : g.Node) : EStateM Halt (Rounds g) Bool := do
  if (← get).workingSet.isEmpty then
    if (← get).exact then return false
    relabel source sink
    let count := (← get).workingSet.size
    if 0 < count then
      modify fun s => { s with journal := s.journal.record (.nodesReactivated count) }
    return true
  else
    discharge sink
    renew sink
    if threshold < (← get).work ∧ (← get).workingSet.isEmpty = false then relabel source sink
    return true

/-- Runs rounds until no node other than the terminals is active. -/
def run (threshold fuel : Nat) (source sink : g.Node) : EStateM Halt (Rounds g) Unit := do
  modify fun s => { s with toRound := s.toRound.prepare }
  relabel source sink
  modify fun s =>
    { s with journal := s.journal.record (.dischargeStarted .parallel s.workingSet.size sink) }
  iterate (step threshold source sink) fuel

end Rounds

end PushRelabel
