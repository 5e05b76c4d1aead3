import PushRelabel.Fault
import PushRelabel.Journal
import PushRelabel.Word

/-! # Memory estimates

How many bytes a run takes: the flow graph, labels and excess, what relabelling
needs, and what the engine needs. Split nodes are left out of account, and the
sequential engine is taken to detect gaps with buckets.
-/

namespace PushRelabel

structure Footprint where
  nodes : Nat
  arcs : Nat
  terminals : Nat
  engine : Engine
  threads : Nat

namespace Footprint

/-- One bit for each of some nodes, in whole bytes. -/
def bitBytes (nodes : Nat) : Nat := (nodes + 7) / 8

/-- With the super-source and the super-target. -/
def flowNodes (f : Footprint) : Nat := f.nodes + 2

def flowArcs (f : Footprint) : Nat := f.arcs + f.terminals

def graphBytes (f : Footprint) : Nat :=
  2 * (f.flowNodes + 1) * Word.bytes + 5 * f.flowArcs * Word.bytes

def preflowBytes (f : Footprint) : Nat := 2 * f.flowNodes * Word.bytes

def searchBytes (f : Footprint) : Nat :=
  2 * f.flowNodes * Word.bytes + bitBytes f.flowNodes + f.threads * 3 * Word.bytes

def engineBytes (f : Footprint) : Nat :=
  match f.engine with
  | .sequential =>
      f.flowNodes * Word.bytes + bitBytes f.flowNodes + 3 * f.flowNodes * Word.bytes
  | .parallel =>
      5 * f.flowNodes * Word.bytes + bitBytes f.flowNodes + f.threads * 6 * Word.bytes

def total (f : Footprint) : Nat :=
  f.graphBytes + f.preflowBytes + f.searchBytes + f.engineBytes

/-- The number of bytes, which has to be a word. No part is larger than the whole,
so this decides whether any of them overflows. -/
def bytes (f : Footprint) : Except Fault Nat :=
  if f.total < Word.size then .ok f.total else .error .overflow

end Footprint

end PushRelabel
