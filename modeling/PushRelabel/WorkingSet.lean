import PushRelabel.Room

/-! # Working sets

A working set is a buffer of fixed capacity. Elements are appended at its end and
handed out through a cursor, alone or in batches. The cursor only moves forward
until it is rewound: a claim that fails is not taken back, so the consumers that
follow fail as well. The cursor is a word and wraps around.
-/

namespace PushRelabel

structure WorkingSet (α : Type) where
  slots : Array α
  /-- The number of elements appended since the last reset, refused ones included. -/
  size : Nat
  cursor : Nat

namespace WorkingSet

variable {α : Type}

def ofCapacity (capacity : Nat) (blank : α) : WorkingSet α := ⟨Array.replicate capacity blank, 0, 0⟩

/-- An empty set, if there is room for its slots. -/
def allocate (capacity : Nat) (blank : α) : Except Fault (WorkingSet α) :=
  Room.claim Word.bytes capacity fun _ => ofCapacity capacity blank

def capacity (w : WorkingSet α) : Nat := w.slots.size

def isEmpty (w : WorkingSet α) : Bool := w.size == 0

/-- The elements in the order in which they were appended. -/
def toList (w : WorkingSet α) : List α := w.slots.toList.take w.size

/-- Appends an element. The place is reserved even if there is no room for it. -/
def push (a : α) : EStateM Fault (WorkingSet α) Unit := fun w =>
  if h : w.size < w.slots.size then
    .ok () { w with slots := w.slots.set w.size a h, size := w.size + 1 }
  else .error (.workingSetFull w.capacity) { w with size := w.size + 1 }

/-- Writes elements into consecutive slots as far as there are slots. -/
def fill (slots : Array α) (start : Nat) : List α → Array α
  | [] => slots
  | a :: as => fill (slots.setIfInBounds start a) (start + 1) as

/-- Appends elements to consecutive slots, all of them or none. -/
def pushAll (as : List α) : EStateM Fault (WorkingSet α) Unit := fun w =>
  if as = [] then .ok () w
  else
    let next := w.size + as.length
    if next ≤ w.slots.size then .ok () { w with slots := fill w.slots w.size as, size := next }
    else .error (.batchTooLarge as.length w.size w.capacity) { w with size := next }

/-- Moves the cursor and returns where it was. -/
def advance (count : Nat) : EStateM Fault (WorkingSet α) Nat := fun w =>
  .ok w.cursor { w with cursor := Word.wrap (w.cursor + count) }

/-- The positions from the cursor on, at most `count` of them; none if the cursor
is at the end already. -/
def claim (count : Nat) : EStateM Fault (WorkingSet α) (Option (Nat × Nat)) := do
  let size := (← get).size
  let start ← advance count
  if start < size then
    match Word.add? start count with
    | some stop => return some (start, min size stop)
    | none => throw .overflow
  else return none

/-- The element in a slot. Only elements appended since the last reset are there;
refused ones count, but have no slot. -/
def read (position : Nat) : EStateM Fault (WorkingSet α) α := fun w =>
  if w.size ≤ position then .error .emptySlot w
  else if h : position < w.slots.size then .ok w.slots[position] w
  else .error .indexOutOfRange w

/-- The element at the cursor, if the cursor is not at the end. -/
def pop : EStateM Fault (WorkingSet α) (Option α) := do
  let position ← advance 1
  if position < (← get).size then return some (← read position) else return none

/-- Empties the set. -/
def reset (w : WorkingSet α) : WorkingSet α := { w with size := 0, cursor := 0 }

/-- Lets the same elements be handed out again. -/
def rewind (w : WorkingSet α) : WorkingSet α := { w with cursor := 0 }

@[simp] theorem size_fill (slots : Array α) (start : Nat) (as : List α) :
    (fill slots start as).size = slots.size := by
  induction as generalizing slots start with
  | nil => rfl
  | cons a as ih => simp [fill, ih]

@[simp] theorem toList_reset (w : WorkingSet α) : w.reset.toList = [] := by
  simp [reset, toList]

@[simp] theorem toList_rewind (w : WorkingSet α) : w.rewind.toList = w.toList := rfl

theorem push_of_lt {a : α} {w : WorkingSet α} (h : w.size < w.slots.size) :
    push a w = .ok () { w with slots := w.slots.set w.size a h, size := w.size + 1 } := by
  simp [push, h]

theorem toList_of_push {a : α} {w w' : WorkingSet α} (h : push a w = .ok () w') :
    w'.toList = w.toList ++ [a] := by
  by_cases hroom : w.size < w.slots.size
  · rw [push_of_lt hroom] at h
    cases h
    simp only [toList, Array.toList_set]
    rw [List.take_add_one, List.take_set_of_le (Nat.le_refl _)]
    simp [hroom]
  · simp [push, hroom] at h

end WorkingSet

end PushRelabel
