/-! # Faults

A fault says which precondition a caller broke. It is data: the wording of the
ones that have a text is in `PushRelabel.Message`.
-/

namespace PushRelabel

inductive Fault where
  | indexOutOfRange
  | overflow
  /-- A table was asked for that is longer than memory allows. -/
  | noRoom
  /-- An arc names a node that the network does not have. -/
  | missingNode (node order : Nat)
  | workingSetFull (capacity : Nat)
  /-- A slot was asked for that holds no appended element. -/
  | emptySlot
  | batchTooLarge (count position capacity : Nat)
  /-- The list of node capacities has not one entry per node. -/
  | nodeLimitCount (given order : Nat)
  | frequency (given : Float)
  | capacityBound (given : Float)
deriving DecidableEq

end PushRelabel
