import PushRelabel.Decimal.Reading
import PushRelabel.Text.Blank
import PushRelabel.Text.Quoted

/-! # Terminals

The sources of a flow, or its targets: nodes alone, which are limited only by
their arcs, or nodes each with the most it supplies or absorbs. A set is written
as a list of words, `ID` or `ID:CAPACITY`, all of one kind.
-/

namespace PushRelabel

inductive Terminals (K : Type) where
  | list (ids : List Nat)
  | map (entries : List (Nat × K))

namespace Terminals

variable {K : Type}

def count : Terminals K → Nat
  | list ids => ids.length
  | map entries => entries.length

def isEmpty (t : Terminals K) : Bool := t.count == 0

inductive ReadError where
  /-- A word is not a terminal; the message shows all of them. -/
  | unreadable (words : List String) (cause : Decimal.ReadError)
  | noCapacity (id : Nat)

namespace ReadError

/-- The message and what caused it. -/
def messages : ReadError → List String
  | unreadable words cause => ["Could not parse terminals " ++ Text.quoteAll words, cause.message]
  | noCapacity id => [s!"Terminal {id} has no capacity, but others do"]

end ReadError

def readTerminal (cs : List Char) : Except Decimal.ReadError (Nat × Option Float) :=
  let id := cs.takeWhile (· ≠ ':')
  match cs.dropWhile (· ≠ ':') with
  | [] => do return (← Decimal.readWord (Text.trim id), none)
  | _ :: capacity => do
      let id ← Decimal.readWord (Text.trim id)
      return (id, some (← Decimal.readDecimal (Text.trim capacity)))

def withCapacity (entry : Nat × Option Float) : Except ReadError (Nat × Float) :=
  match entry.2 with
  | some capacity => .ok (entry.1, capacity)
  | none => .error (.noCapacity entry.1)

def read (words : List String) : Except ReadError (Terminals Float) :=
  match words.mapM (fun word => readTerminal word.toList) with
  | .error cause => .error (.unreadable words cause)
  | .ok entries =>
      if entries.all (·.2.isNone) then .ok (list (entries.map Prod.fst))
      else (entries.mapM withCapacity).map map

end Terminals

end PushRelabel
