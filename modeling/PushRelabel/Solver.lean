import PushRelabel.FlowGraph.Build
import PushRelabel.TwoPass

/-! # Solvers

A solver holds a problem and the settings for it, and what its last run has left:
the tally, the labels and the excess of the flow graph. A problem that is not
acceptable leaves them as they were.
-/

namespace PushRelabel

variable {K : Type}

structure Solution (K : Type) where
  /-- The arcs of the network that carry flow. -/
  flows : List (ArcFlow K)
  total : K

/-- Why there is no solution. -/
inductive SolveError (K : Type) where
  | input (cause : InputError K)
  | halt (cause : Halt)

structure Solver (K : Type) where
  problem : Problem K
  settings : Settings
  /-- The stop flag is up. -/
  stopped : Bool
  tally : Tally
  labels : Array Nat
  excess : Array K
  /-- What the last run reported. -/
  events : Array (Event K)

namespace Solver

def ofProblem (problem : Problem K) : Solver K where
  problem := problem
  settings := .default
  stopped := false
  tally := .zero
  labels := #[]
  excess := #[]
  events := #[]

def setFrequency (frequency : Float) : EStateM Fault (Solver K) Unit := fun s =>
  if 0.0 < frequency then .ok () { s with settings := { s.settings with frequency := frequency } }
  else .error (.frequency frequency) s

/-- Without capacities, no node is limited. -/
def setLimits (limits : Option (Array (Option K))) : EStateM Fault (Solver K) Unit := fun s =>
  match limits with
  | none => .ok () { s with problem := { s.problem with limits := s.problem.network.unlimited } }
  | some given =>
      match s.problem.network.limits given with
      | .ok limits => .ok () { s with problem := { s.problem with limits := limits } }
      | .error e => .error e s

/-- What a run reports before the flow graph is built. -/
def opening (s : Solver K) : List (Event K) :=
  [.engineChosen s.settings.engine, .gapsDetected s.settings.gaps,
    .frequencyChosen s.settings.frequency,
    .terminalsGiven s.problem.sources.count s.problem.targets.count]

/-- What a run reports of the flow graph. -/
def buildEvents (g : FlowGraph K) : List (Event K) :=
  [.buildStarted g.nodeCount g.arcCount, .buildFinished g.nodeCount g.splits.size g.arcCount]

/-- Keeps what a run of both passes has left. -/
def finish {g : FlowGraph K} (s : Solver K) (passes : TwoPass g) : Solver K :=
  { s with
    stopped := passes.journal.stopped
    tally := passes.tally
    labels := passes.preflow.labels.toArray
    excess := passes.preflow.excess.toArray
    events := passes.journal.events }

/-- Keeps what a run has reported that did not get to the passes. -/
def report (s : Solver K) (journal : Journal K) : Solver K :=
  { s with stopped := journal.stopped, events := journal.events }

variable [Quantity K]

def solution (g : FlowGraph K) (flow : g.Flow) : Solution K := ⟨g.flows flow, g.delivered flow⟩

/-- Computes a maximum flow. The stop flag rises at the event with a certain number,
if one is given. -/
def run (fuel : Nat) (stopAt : Option Nat) :
    EStateM (SolveError K) (Solver K) (Solution K) := fun s =>
  let journal := s.opening.foldl Journal.record (.start s.stopped stopAt)
  match s.problem.build with
  | .error e => .error (.input e) (s.report journal)
  | .ok g =>
      let journal := (buildEvents g).foldl Journal.record journal
      match TwoPass.run s.settings fuel (.start g.initialFlow journal) with
      | .ok _ passes => .ok (solution g passes.preflow.flow) (s.finish passes)
      | .error h passes => .error (.halt h) (s.finish passes)

end Solver

end PushRelabel
