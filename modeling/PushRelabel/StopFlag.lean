import PushRelabel.Fault

/-! # Stop flags

A stop flag asks a computation to end early. Whoever holds a handle may raise the
flag behind it; several handles can share one flag, and a raised flag stays up.
-/

namespace PushRelabel

/-- The flags of a session. A handle is a number, and so is a flag. -/
structure StopFlags where
  /-- The flag behind each handle. -/
  handles : Array Nat
  raised : Array Bool

namespace StopFlags

/-- One handle to one flag that is down. -/
def single : StopFlags := ⟨#[0], #[false]⟩

def flagOf (s : StopFlags) (handle : Nat) : Except Fault Nat :=
  match s.handles[handle]? with
  | some flag => .ok flag
  | none => .error .indexOutOfRange

/-- Adds a handle to a flag of its own. -/
def fresh (s : StopFlags) : StopFlags := ⟨s.handles.push s.raised.size, s.raised.push false⟩

/-- Adds a handle to the flag behind another handle. -/
def share (s : StopFlags) (handle : Nat) : Except Fault StopFlags := do
  return { s with handles := s.handles.push (← s.flagOf handle) }

def raise (s : StopFlags) (handle : Nat) : Except Fault StopFlags := do
  return { s with raised := s.raised.setIfInBounds (← s.flagOf handle) true }

def isRaised (s : StopFlags) (handle : Nat) : Except Fault Bool := do
  return s.raised.getD (← s.flagOf handle) false

/-- For each handle, whether its holder may go on. -/
def running (s : StopFlags) : List Bool :=
  s.handles.toList.map fun flag => !s.raised.getD flag false

end StopFlags

end PushRelabel
