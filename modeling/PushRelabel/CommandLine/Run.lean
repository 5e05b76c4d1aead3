import PushRelabel.CommandLine.Arguments
import PushRelabel.Memory
import PushRelabel.Message
import PushRelabel.Moment
import PushRelabel.Network.Records

/-! # Runs from the command line

A run reads the files that the arguments name, computes a maximum flow, and lists
the arcs that carry flow. Reports on its progress are due at intervals, so the first
of them has to be due at some moment. The first thing that is wrong ends the run.
What it notes on its way is kept in any case.
-/

namespace PushRelabel.CommandLine

inductive Failure where
  /-- A message, and what caused it if there is more to say. -/
  | explained (messages : List String)
  | fault (cause : Fault)
  | outOfFuel

namespace Failure

/-- Of all faults, a frequency that is not positive is the caller's own choice. -/
def ofFault : Fault → Failure
  | .frequency given => explained [frequencyMessage given]
  | cause => fault cause

def ofLoadError : LoadError → Failure
  | .fault cause => ofFault cause
  | e => explained e.messages

def ofSolveError : SolveError Float → Failure
  | .input cause => explained [cause.message]
  | .halt .interrupted => explained [Halt.interruptedMessage]
  | .halt (.fault cause) => ofFault cause
  | .halt .outOfFuel => outOfFuel

def exitCode : Failure → UInt32
  | explained _ => 1
  | _ => 101

def messages : Failure → List String
  | explained messages => messages
  | _ => []

/-- An error with its cause, as it is shown. -/
def text : Failure → String
  | explained (message :: causes) =>
      "Error: " ++ message ++ "\n" ++
        String.join (causes.map fun cause => "\nCaused by:\n    " ++ cause ++ "\n")
  | _ => ""

end Failure

/-- The exit code for arguments that are rejected. -/
def Rejection.exitCode : Rejection → UInt32
  | usage => 2
  | fault _ => 101

/-- A computation that may fail and keeps notes. -/
abbrev Step (α : Type) : Type := EStateM Failure (Array String) α

def note (text : String) : Step Unit := modify (·.push text)

def orFail {ε α : Type} (failure : ε → Failure) : Except ε α → Step α
  | .ok a => pure a
  | .error e => throw (failure e)

def readTerminals (words : List String) : Step (Terminals Float) :=
  orFail (.explained ·.messages) (Terminals.read words)

/-- When a run that starts now is to report on its progress for the first time. -/
def firstReport (args : Arguments) (now : Moment) : Except Fault (Option Moment) :=
  match args.logInterval with
  | none => .ok none
  | some interval =>
      match now.after? interval with
      | some due => .ok (some due)
      | none => .error .overflow

/-- What reading the file at a path gives. -/
abbrev Files : Type := String → Except FileError (List UInt8)

def loadLimits (files : Files) (net : Network Float) :
    Option String → Step (Vector (Option Float) net.order)
  | none => return net.unlimited
  | some path => do
      let capacities ← orFail .ofLoadError (loadNodeCapacities path (files path) net.order)
      orFail .ofFault (net.limits (capacities.map limitOf))

def footprint (args : Arguments) (p : Problem Float) : Footprint where
  nodes := p.network.order
  arcs := p.network.arcCount
  terminals := p.sources.count + p.targets.count
  engine := args.settings.engine
  threads := args.threads

def loadProblem (args : Arguments) (files : Files) (now : Moment) : Step (Problem Float) := do
  let sources ← readTerminals args.sources
  let targets ← readTerminals args.targets
  let _ ← orFail .ofFault (firstReport args now)
  let net ← orFail .ofLoadError (Network.load args.arcs (files args.arcs))
  note s!"Loaded a graph with {net.order} nodes and {net.arcCount} arcs"
  return ⟨net, ← loadLimits files net args.nodeCapacities, sources, targets⟩

def solve (solver : Solver Float) (fuel : Nat) : Step (Solution Float) :=
  match Solver.run fuel none solver with
  | .ok solution _ => pure solution
  | .error e _ => throw (.ofSolveError e)

/-- A pool has fewer than `2 ^ 16` threads, however many are asked for. -/
def poolSize (threads : Nat) : Nat := min threads (1 <<< 16 - 1)

/-- The line for an arc that carries flow. -/
def flowLine (f : ArcFlow Float) : String :=
  s!"{f.tail}\t{f.head}\t" ++ Decimal.text f.amount ++ "\n"

/-- Returns what is written to the standard output. -/
def run (args : Arguments) (files : Files) (now : Moment) (fuel : Nat) : Step String := do
  if ¬ 0.0 < args.settings.frequency then throw (.ofFault (.frequency args.settings.frequency))
  let problem ← loadProblem args files now
  let bytes ← orFail .ofFault (footprint args problem).bytes
  note s!"Estimated memory usage: {bytes} bytes"
  note s!"Using {poolSize args.threads} threads"
  let solution ← solve { Solver.ofProblem problem with settings := args.settings } fuel
  note ("Total flow: " ++ Decimal.text solution.total)
  return String.join (solution.flows.map flowLine)

end PushRelabel.CommandLine
