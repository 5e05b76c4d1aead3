import PushRelabel.Decimal.Reading
import PushRelabel.FileTree
import PushRelabel.Network
import PushRelabel.Text.Line

/-! # Networks in text files

A record is a line that has fields and whose first field does not start with a
number sign. An arc file has the tail, the head and the capacity of one arc in
each record; a missing capacity is one. A file of node capacities has a node and
its capacity in each record, later records overriding earlier ones.
-/

namespace PushRelabel

inductive RecordError where
  | fieldCount (expected : String) (found : Nat)
  | number (cause : Decimal.ReadError)
  | missingNode (node order : Nat)

inductive LoadError where
  | file (path : String) (cause : FileError)
  | badRecord (path : String) (line : Nat) (cause : RecordError)
  /-- A line is not UTF-8 text. -/
  | notText
  | fault (cause : Fault)

namespace RecordError

def message : RecordError → String
  | fieldCount expected found => s!"Expected \"{expected}\", found {found} fields"
  | number cause => cause.message
  | missingNode node order => s!"Node {node} does not exist (the graph has {order} nodes)"

end RecordError

namespace LoadError

/-- The message and what caused it. A directory can be opened, but not read. A fault
has a wording of its own. -/
def messages : LoadError → List String
  | file _ .isDirectory => [FileError.isDirectory.message]
  | file path cause => ["Could not open " ++ path, cause.message]
  | badRecord path line cause => [s!"Error at line {line} of " ++ path, cause.message]
  | notText => ["stream did not contain valid UTF-8"]
  | fault _ => []

end LoadError

namespace Records

def isComment (fields : List (List Char)) : Bool :=
  match fields with
  | ('#' :: _) :: _ => true
  | _ => false

variable {ρ σ : Type}

/-- Reads the records of the lines from a given number on, and feeds them to a
consumer. -/
def foldLines (path : String) (read : List (List Char) → Except RecordError ρ)
    (take : σ → ρ → Except Fault σ) (number : Nat) (s : σ) : List (List UInt8) → Except LoadError σ
  | [] => .ok s
  | line :: rest =>
      match Text.decode line with
      | none => .error .notText
      | some cs =>
          let fields := Text.fields cs
          if fields = [] ∨ isComment fields then foldLines path read take (number + 1) s rest
          else match read fields with
            | .error cause => .error (.badRecord path number cause)
            | .ok record =>
                match take s record with
                | .error cause => .error (.fault cause)
                | .ok s => foldLines path read take (number + 1) s rest

/-- Feeds the records of a file to a consumer. -/
def foldFile (path : String) (content : Except FileError (List UInt8))
    (read : List (List Char) → Except RecordError ρ) (take : σ → ρ → Except Fault σ) (s : σ) :
    Except LoadError σ :=
  match content with
  | .error cause => .error (.file path cause)
  | .ok bytes => foldLines path read take 1 s (Text.lines bytes)

def readWord (cs : List Char) : Except RecordError Nat :=
  match Decimal.readWord cs with
  | .ok n => .ok n
  | .error e => .error (.number e)

def readDecimal (cs : List Char) : Except RecordError Float :=
  match Decimal.readDecimal cs with
  | .ok x => .ok x
  | .error e => .error (.number e)

def readArc : List (List Char) → Except RecordError (Arc Float)
  | [tail, head] => do return ⟨← readWord tail, ← readWord head, 1.0⟩
  | [tail, head, capacity] => do
      return ⟨← readWord tail, ← readWord head, ← readDecimal capacity⟩
  | fields => .error (.fieldCount "SRC DST [CAPACITY]" fields.length)

def readNodeCapacity (order : Nat) : List (List Char) → Except RecordError (Nat × Float)
  | [node, capacity] => do
      let node ← readWord node
      if node < order then return (node, ← readDecimal capacity)
      else throw (.missingNode node order)
  | fields => .error (.fieldCount "NODE CAPACITY" fields.length)

end Records

namespace Network

def load (path : String) (content : Except FileError (List UInt8)) :
    Except LoadError (Network Float) :=
  Records.foldFile path content Records.readArc receive empty

end Network

/-- Nodes without a record are not limited. The table is there before the file is
opened. -/
def loadNodeCapacities (path : String) (content : Except FileError (List UInt8)) (order : Nat) :
    Except LoadError (Array Float) :=
  match Room.claim Word.bytes order fun _ => Array.replicate order (1.0 / 0.0) with
  | .error cause => .error (.fault cause)
  | .ok unlimited =>
      Records.foldFile path content (Records.readNodeCapacity order)
        (fun capacities entry => .ok (capacities.setIfInBounds entry.1 entry.2)) unlimited

end PushRelabel
