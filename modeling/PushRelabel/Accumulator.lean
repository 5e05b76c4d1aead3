import PushRelabel.Quantity
import PushRelabel.Room

/-! # Accumulators

An accumulator holds a quantity that many parties add to. Each addition can give
back what was held before, so that its author knows the order of the additions.
-/

namespace PushRelabel

structure Accumulator (K : Type) where
  value : K

namespace Accumulator

variable {K : Type}

def load : StateM (Accumulator K) K := fun a => (a.value, a)

def store (x : K) : StateM (Accumulator K) Unit := fun _ => ((), ⟨x⟩)

/-- Stores a value and returns the one before it. -/
def swap (x : K) : StateM (Accumulator K) K := fun a => (a.value, ⟨x⟩)

/-- Several accumulators that all hold the same value, if there is room for them. -/
def allocate (count : Nat) (x : K) : Except Fault (Array (Accumulator K)) :=
  Room.claim Word.bytes count fun _ => Array.replicate count ⟨x⟩

variable [Quantity K]

def zero : Accumulator K := ⟨0⟩

/-- Adds to the value and returns the one before. -/
def fetchAdd (delta : K) : StateM (Accumulator K) K := fun a => (a.value, ⟨a.value + delta⟩)

def add (delta : K) : StateM (Accumulator K) Unit := fun a => ((), ⟨a.value + delta⟩)

/-- Takes the value out, leaving zero. -/
def take : StateM (Accumulator K) K := swap 0

/-- Adds to one of several accumulators. -/
def fetchAddAt (position : Nat) (delta : K) : EStateM Fault (Array (Accumulator K)) K := fun as =>
  if h : position < as.size then
    let (before, after) := fetchAdd delta as[position]
    .ok before (as.set position after h)
  else .error .indexOutOfRange as

end Accumulator

end PushRelabel
