/-! # Nodes in the order of their labels

All nodes with a label below the sentinel, each with its label, ascending by label
and then by node. The nodes above a label are a final part of the list.
-/

namespace PushRelabel.Gap

structure Ordered where
  /-- Pairs of a label and a node. -/
  members : List (Nat × Nat)

namespace Ordered

def precedes (a b : Nat × Nat) : Bool := a.1 < b.1 ∨ (a.1 = b.1 ∧ a.2 ≤ b.2)

def empty : Ordered := ⟨[]⟩

/-- Inserts a pair in its place; a pair that is present is not repeated. -/
def insertInto (a : Nat × Nat) : List (Nat × Nat) → List (Nat × Nat)
  | [] => [a]
  | b :: rest =>
      if a = b then b :: rest
      else if precedes a b then a :: b :: rest
      else b :: insertInto a rest

def isEmptyAt (o : Ordered) (label : Nat) : Bool := o.members.all fun a => a.1 ≠ label

def reset (sentinel : Nat) (labels : Array Nat) : Ordered :=
  ⟨((labels.toList.zipIdx.filter fun a => a.1 < sentinel)).mergeSort precedes⟩

/-- Records that a node changed its label, and tells whether the old one is left
without nodes. Nodes at the sentinel are not members. -/
def move (o : Ordered) (sentinel node old new : Nat) : Ordered × Bool :=
  let kept := if old < sentinel then o.members.erase (old, node) else o.members
  let o : Ordered := ⟨if new < sentinel then insertInto (new, node) kept else kept⟩
  (o, old < sentinel && o.isEmptyAt old)

/-- Cuts off the nodes above a label, and returns them by ascending label. -/
def takeAbove (o : Ordered) (gap : Nat) : Ordered × List Nat :=
  (⟨o.members.takeWhile fun a => a.1 ≤ gap⟩,
    (o.members.dropWhile fun a => a.1 ≤ gap).map Prod.snd)

theorem mem_insertInto {a b : Nat × Nat} {l : List (Nat × Nat)} :
    b ∈ insertInto a l ↔ b = a ∨ b ∈ l := by
  induction l with
  | nil => simp [insertInto]
  | cons c rest ih =>
      unfold insertInto
      split
      · rename_i heq
        subst heq
        simp
      · split
        · simp
        · simp only [List.mem_cons, ih]
          constructor
          · rintro (h | h | h) <;> simp [h]
          · rintro (h | h | h) <;> simp [h]

end Ordered

end PushRelabel.Gap
