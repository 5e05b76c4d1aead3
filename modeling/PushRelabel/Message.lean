import PushRelabel.Decimal.Layout
import PushRelabel.Solver

/-! # Messages

The wording of faults, of errors and of what a run reports. Quantities are doubles
here, written in full.
-/

namespace PushRelabel

def frequencyMessage (given : Float) : String :=
  "The global-relabeling frequency must be positive, got " ++ Decimal.text given

/-- A fault that comes from plain arithmetic or indexing has no text. -/
def Fault.message : Fault → Option String
  | indexOutOfRange => none
  | overflow => none
  | noRoom => some "capacity overflow"
  | missingNode node order =>
      some s!"Node {node} does not exist (the graph has {order} nodes)"
  | workingSetFull capacity => some s!"Working set overflow: capacity is {capacity}"
  | emptySlot => some "assertion failed: index < self.size()"
  | batchTooLarge count position capacity =>
      some (s!"Working set overflow: cannot add {count} nodes at position {position}" ++
        s!" (capacity is {capacity})")
  | nodeLimitCount given order =>
      some (s!"Node-capacity vector length ({given})" ++
        s!" does not match the number of nodes ({order})")
  | frequency given => some (frequencyMessage given)
  | capacityBound given =>
      some ("The capacity upper bound must be positive and finite, got " ++ Decimal.text given)

def Halt.interruptedMessage : String := "The computation was interrupted"

def InputError.message : InputError Float → String
  | noSources => "No source nodes"
  | noTargets => "No target nodes"
  | nodeCapacity node capacity => s!"Node {node} has invalid capacity " ++ Decimal.text capacity
  | arcCapacity tail head capacity =>
      s!"Arc {tail} -> {head} has invalid capacity " ++ Decimal.text capacity
  | terminalCapacity id capacity => s!"Terminal {id} has invalid capacity " ++ Decimal.text capacity
  | unknownNode id => s!"Unknown node {id}"
  | duplicateTerminal node => s!"Node {node} appears more than once in a set of terminals"
  | sourceIsTarget node => s!"Node {node} is both a source and a target"

namespace Event

/-- Whether an event is of interest only to those who look for details. -/
def isDetail {K : Type} : Event K → Bool
  | relabelFinished _ => true
  | gapFound _ _ => true
  | nodesReactivated _ => true
  | _ => false

def message : Event Float → String
  | engineChosen engine => "Engine: " ++ engine.name
  | gapsDetected strategy => "Gap detection: " ++ strategy.name
  | frequencyChosen frequency => "Global-relabeling frequency: " ++ Decimal.text frequency
  | terminalsGiven sources targets => s!"{sources} sources, {targets} targets"
  | buildStarted nodes arcs => s!"Building flow graph with {nodes} nodes and {arcs} arcs..."
  | buildFinished nodes splits arcs => s!"Flow graph: {nodes} nodes ({splits} split), {arcs} arcs"
  | relabelStarted => "Relabeling..."
  | relabelFinished largest => s!"Global relabeling completed: largest label {largest}"
  | dischargeStarted .sequential active sink =>
      s!"Discharging {active} active nodes towards {sink}..."
  | dischargeStarted .parallel active sink =>
      s!"Discharging {active} active nodes towards {sink} in parallel..."
  | gapFound label retired => s!"Gap at label {label}: {retired} nodes retired"
  | nodesReactivated count =>
      s!"Global relabeling after the last round reactivated {count} nodes"
  | preflowFinished delivered =>
      "Maximum preflow computed: " ++ Decimal.text delivered ++ " units delivered"
  | excessReturned left =>
      "Stranded excess returned: " ++ Decimal.text left ++ " units left the source"
  | flowFinished total tally =>
      "Maximum flow: " ++ Decimal.text total ++
        s!" ({tally.globalRelabelings} global relabelings, " ++
        s!"{tally.gapRelabelings} gap relabelings, {tally.discharges} discharges)"

end Event

end PushRelabel
