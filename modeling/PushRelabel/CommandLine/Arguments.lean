import PushRelabel.Discharger
import PushRelabel.Duration

/-! # Command-line arguments

One operand names the arc file; everything else is given by options. An option is
`--name` or `-c`, and its value is the next word, or what is attached to it, with
or without an equals sign after a short name. The sources and the targets take all
words up to the next one that starts with a dash, and may be given in parts; no
other option may be repeated. After `--` every word is an operand.
-/

namespace PushRelabel.CommandLine

inductive Flag where
  | source
  | target
  | nodeCapacities
  | threads
  | engine
  | gap
  | frequency
  | granularity
  | logInterval
deriving DecidableEq

namespace Flag

def ofLongName? : String → Option Flag
  | "source" => some source
  | "target" => some target
  | "node-capacities" => some nodeCapacities
  | "num-threads" => some threads
  | "engine" => some engine
  | "gap" => some gap
  | "freq" => some frequency
  | "granularity" => some granularity
  | "log-interval" => some logInterval
  | _ => none

def ofShortName? : Char → Option Flag
  | 's' => some source
  | 't' => some target
  | 'j' => some threads
  | _ => none

/-- Whether an option takes several values, and may be given several times. -/
def isList : Flag → Bool
  | source => true
  | target => true
  | _ => false

end Flag

/-- Why arguments are rejected. -/
inductive Rejection where
  | usage
  | fault (cause : Fault)
deriving DecidableEq

inductive ThreadsError where
  | number (cause : Decimal.ReadError)
  | zero

def ThreadsError.message : ThreadsError → String
  | number cause => cause.message
  | zero => "Number of threads must be greater than 0"

def readThreads (cs : List Char) : Except ThreadsError Nat :=
  match Decimal.readWord cs with
  | .error cause => .error (.number cause)
  | .ok n => if n = 0 then .error .zero else .ok n

/-- What a word is by its first characters. A dash alone is a plain word. -/
inductive Token where
  | plain
  | separator
  | option (flag : Flag) (attached : Option String)
  | unknown

namespace Token

def ofLong (cs : List Char) : Token :=
  match Flag.ofLongName? (String.ofList (cs.takeWhile (· ≠ '='))) with
  | none => unknown
  | some flag => option flag ((cs.dropWhile (· ≠ '=')).tail?.map String.ofList)

def ofShort (c : Char) (cs : List Char) : Token :=
  match Flag.ofShortName? c with
  | none => unknown
  | some flag =>
      option flag (match cs with
        | [] => none
        | '=' :: value => some (String.ofList value)
        | value => some (String.ofList value))

def ofWord (word : String) : Token :=
  match word.toList with
  | ['-', '-'] => separator
  | '-' :: '-' :: cs => ofLong cs
  | '-' :: c :: cs => ofShort c cs
  | _ => plain

end Token

structure Arguments where
  arcs : String
  sources : List String
  targets : List String
  nodeCapacities : Option String
  threads : Nat
  settings : Settings
  logInterval : Option Duration

/-- The arguments as far as they are known. -/
structure Draft where
  arcs : Option String
  sources : List String
  targets : List String
  nodeCapacities : Option String
  threads : Option Nat
  engine : Option Engine
  gap : Option GapStrategy
  frequency : Option Float
  granularity : Option Nat
  logInterval : Option Duration
  /-- An option that may get more values, and those that it has. -/
  pending : Option (Flag × List String)

namespace Draft

def empty : Draft := ⟨none, [], [], none, none, none, none, none, none, none, none⟩

def readPath (word : String) : Except Rejection String :=
  if word.isEmpty then .error .usage else .ok word

def readEngine : String → Except Rejection Engine
  | "seq" => .ok .sequential
  | "par" => .ok .parallel
  | _ => .error .usage

def readGap : String → Except Rejection GapStrategy
  | "none" => .ok .none
  | "counts" => .ok .counts
  | "buckets" => .ok .buckets
  | "sorted-set" => .ok .sortedSet
  | _ => .error .usage

def readDuration (word : String) : Except Rejection Duration :=
  match Duration.read word.toList with
  | .ok d => .ok d
  | .error (.fault cause) => .error (.fault cause)
  | .error _ => .error .usage

/-- A value that may be wrong only in its form. -/
def wellFormed {ε α : Type} : Except ε α → Except Rejection α
  | .ok a => .ok a
  | .error _ => .error .usage

/-- An option that is not a list has one value and is given once. -/
def once {α : Type} (known : Option α) (read : String → Except Rejection α) :
    List String → Except Rejection (Option α)
  | [word] => if known.isSome then .error .usage else (read word).map some
  | _ => .error .usage

/-- Takes up the values of an option. -/
def accept (d : Draft) (flag : Flag) (values : List String) : Except Rejection Draft := do
  if values = [] then throw .usage
  match flag with
  | .source => return { d with sources := d.sources ++ values }
  | .target => return { d with targets := d.targets ++ values }
  | .nodeCapacities => return { d with nodeCapacities := ← once d.nodeCapacities readPath values }
  | .threads =>
      return { d with threads := ← once d.threads (wellFormed <| readThreads ·.toList) values }
  | .engine => return { d with engine := ← once d.engine readEngine values }
  | .gap => return { d with gap := ← once d.gap readGap values }
  | .frequency =>
      return { d with
        frequency := ← once d.frequency (wellFormed <| Decimal.readDecimal ·.toList) values }
  | .granularity =>
      return { d with
        granularity := ← once d.granularity (wellFormed <| Decimal.readWord ·.toList) values }
  | .logInterval => return { d with logInterval := ← once d.logInterval readDuration values }

/-- Takes up the values of the option that was waiting for more. -/
def resolve (d : Draft) : Except Rejection Draft :=
  match d.pending with
  | none => .ok d
  | some (flag, values) => { d with pending := none }.accept flag values

def operand (d : Draft) (word : String) : Except Rejection Draft := do
  if d.arcs.isSome then throw .usage
  return { d with arcs := some (← readPath word) }

/-- A word is a value of the pending option, or else an operand. -/
def plain (d : Draft) (word : String) : Except Rejection Draft :=
  match d.pending with
  | none => d.operand word
  | some (flag, values) =>
      let d := { d with pending := some (flag, values ++ [word]) }
      if flag.isList then .ok d else d.resolve

def read (d : Draft) : List String → Except Rejection Draft
  | [] => d.resolve
  | word :: words => do
      match Token.ofWord word with
      | .plain => read (← d.plain word) words
      | .separator => words.foldlM operand (← d.resolve)
      | .option flag none => read { (← d.resolve) with pending := some (flag, []) } words
      | .option flag (some value) => read (← (← d.resolve).accept flag [value]) words
      | .unknown =>
          let _ ← d.resolve
          throw .usage

/-- The arc file, a source and a target are required. -/
def finish (d : Draft) : Except Rejection Arguments :=
  match d.arcs with
  | none => .error .usage
  | some arcs =>
      if d.sources = [] ∨ d.targets = [] then .error .usage
      else .ok
        { arcs := arcs
          sources := d.sources
          targets := d.targets
          nodeCapacities := d.nodeCapacities
          threads := d.threads.getD 1
          settings :=
            { engine := d.engine.getD Settings.default.engine
              gaps := d.gap.getD Settings.default.gaps
              frequency := d.frequency.getD Settings.default.frequency
              granularity := .nodes (d.granularity.getD 1024) }
          logInterval := d.logInterval }

end Draft

/-- Reads the words after the name of the program. -/
def Arguments.read (words : List String) : Except Rejection Arguments := do
  (← Draft.empty.read words).finish

end PushRelabel.CommandLine
