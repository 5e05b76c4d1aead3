/-! # Quantities of flow

The algorithms use a quantity of flow only through addition, subtraction, sign
changes and comparisons, so they run on doubles and make sense over any ordered
field. Nothing is assumed about the operations: a double may be infinite, or not
a number, and then compares as false with everything.
-/

namespace PushRelabel

class Quantity (K : Type) where
  [add : Add K]
  [sub : Sub K]
  [neg : Neg K]
  [zero : Zero K]
  [le : LE K]
  [lt : LT K]
  [decLe : DecidableLE K]
  [decLt : DecidableLT K]
  isFinite : K → Bool

namespace Quantity

instance : Quantity Float where
  zero := ⟨0.0⟩
  isFinite := Float.isFinite

variable {K : Type} [Quantity K]

-- the operations that a type has on its own are found before these

instance (priority := low) toAdd : Add K := add

instance (priority := low) toSub : Sub K := sub

instance (priority := low) toNeg : Neg K := neg

instance (priority := low) toZero : Zero K := zero

instance (priority := low) toLE : LE K := le

instance (priority := low) toLT : LT K := lt

instance (priority := low) toDecidableLE : DecidableLE K := decLe

instance (priority := low) toDecidableLT : DecidableLT K := decLt

/-- The smaller of two quantities; if one of them is not a number, the other. -/
def least (a b : K) : K := if a ≤ b ∨ ¬ b ≤ b then a else b

/-- A sum from left to right. It starts at minus zero, which is the double that
changes no other one when added to it. -/
def total (xs : List K) : K := xs.foldl (· + ·) (-0)

/-- A capacity is valid if it is at least zero; a value that is not a number is
not valid. -/
def IsCapacity (c : K) : Prop := 0 ≤ c

instance (c : K) : Decidable (IsCapacity c) := inferInstanceAs (Decidable (0 ≤ c))

end Quantity

end PushRelabel
