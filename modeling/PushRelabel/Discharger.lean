import PushRelabel.Granularity
import PushRelabel.Pass.Fifo
import PushRelabel.Pass.Rounds

/-! # Dischargers

A discharger runs passes over a flow graph with one engine and one set of
settings. It may run any number of them; its tally adds up over all.
-/

namespace PushRelabel

variable {K : Type}

structure Settings where
  engine : Engine
  gaps : GapStrategy
  /-- How often labels are recomputed. -/
  frequency : Float
  /-- How many nodes are handed out at a time. -/
  granularity : Granularity

def Settings.default : Settings := ⟨.sequential, .buckets, 0.5, .default⟩

inductive Discharger (g : FlowGraph K) where
  | fifo (s : Fifo g)
  | rounds (s : Rounds g)

namespace Discharger

variable {g : FlowGraph K}

def pass : Discharger g → Pass g
  | fifo s => s.toPass
  | rounds s => s.toPass

/-- Gives a discharger another preflow and another journal to go on with. -/
def resume (d : Discharger g) (p : Preflow g) (journal : Journal K) : Discharger g :=
  match d with
  | fifo s => fifo { s with toPreflow := p, journal := journal }
  | rounds s => rounds { s with toPreflow := p, journal := journal }

variable [Quantity K]

def start (settings : Settings) (p : Preflow g) (journal : Journal K) : Discharger g :=
  let batch := settings.granularity.batch g.nodeCount g.arcCount
  let pass := Pass.start batch p journal
  match settings.engine with
  | .sequential => fifo (.start settings.gaps pass)
  | .parallel => rounds (.start settings.gaps batch pass)

/-- Moves excess from the source to the sink until no other node is active. -/
def run (threshold fuel : Nat) (source sink : g.Node) : EStateM Halt (Discharger g) Unit := fun d =>
  match d with
  | fifo s =>
      match Fifo.run threshold fuel source sink s with
      | .ok _ s => .ok () (fifo s)
      | .error h s => .error h (fifo s)
  | rounds s =>
      match Rounds.run threshold fuel source sink s with
      | .ok _ s => .ok () (rounds s)
      | .error h s => .error h (rounds s)

/-- Runs a pass between terminals that may not be nodes. -/
def runAt (threshold fuel source sink : Nat) : EStateM Halt (Discharger g) Unit := do
  match g.node? source, g.node? sink with
  | some source, some sink => run threshold fuel source sink
  | _, sink =>
      modify fun d =>
        d.resume { d.pass.toPreflow with labels := Search.blankLabels g sink } d.pass.journal
      throw (.fault .indexOutOfRange)

end Discharger

end PushRelabel
