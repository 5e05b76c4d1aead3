import PushRelabel.Fault
import PushRelabel.WorkingSet

/-! # Steps that may halt

A computation halts early when its stop flag is raised, at a fault, or when the
fuel of a loop is used up; what it has reached until then stays.
-/

namespace PushRelabel

inductive Halt where
  | interrupted
  | fault (cause : Fault)
  | outOfFuel
deriving DecidableEq

variable {σ τ β α : Type}

/-- Repeats a step as long as it asks for another one. -/
def iterate (step : EStateM Halt σ Bool) : Nat → EStateM Halt σ Unit
  | 0 => throw .outOfFuel
  | fuel + 1 => do if ← step then iterate step fuel

def checkRunning (running : Bool) : EStateM Halt σ Unit :=
  if running then pure () else throw .interrupted

/-- Runs a computation on a part of the state. -/
def onPart (part : σ → τ) (update : σ → τ → σ) (f : EStateM Halt τ β) : EStateM Halt σ β := fun s =>
  match f (part s) with
  | .ok b t => .ok b (update s t)
  | .error h t => .error h (update s t)

/-- Runs an operation on the working set beside a state. -/
def onSet (f : EStateM Fault (WorkingSet α) β) : EStateM Halt (WorkingSet α × σ) β := fun (w, s) =>
  match f w with
  | .ok b w => .ok b (w, s)
  | .error e w => .error (.fault e) (w, s)

namespace WorkingSet

/-- The elements in a range of positions. -/
def between (start stop : Nat) : EStateM Fault (WorkingSet α) (List α) := fun w =>
  if stop ≤ w.capacity then .ok ((w.slots.toList.take stop).drop start) w
  else .error .indexOutOfRange w

/-- Claims batches until a claim fails, and visits the elements of each in order.
The flag is looked at before each batch. -/
def consumeFrom (batch : Nat) (running : Bool) (visit : α → σ → σ) :
    Nat → EStateM Halt (WorkingSet α × σ) Unit
  | 0 => throw .outOfFuel
  | fuel + 1 => do
      match ← onSet (claim batch) with
      | none => return ()
      | some (start, stop) =>
          checkRunning running
          let elements ← onSet (between start stop)
          modify fun (w, s) => (w, elements.foldl (fun s a => visit a s) s)
          consumeFrom batch running visit fuel

/-- Each claim but the last hands out an element, so their number bounds the claims. -/
def consume (batch : Nat) (running : Bool) (visit : α → σ → σ) :
    EStateM Halt (WorkingSet α × σ) Unit := do
  consumeFrom batch running visit ((← get).1.size + 1)

end WorkingSet

end PushRelabel
