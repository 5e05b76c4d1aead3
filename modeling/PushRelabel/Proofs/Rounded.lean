import PushRelabel.Proofs.Exact

/-! # Rounded quantities

Where sums are rounded, few laws of addition are left, and quantities that are infinite or no
numbers satisfy even fewer. The ones here hold for exact quantities and for doubles. An amount
that is taken from a larger one leaves something, since small differences are not rounded to
zero, and no sum makes an infinite quantity finite again.
-/

namespace PushRelabel.Quantity

/-- The laws that rounding keeps. A quantity is a number if it is at most itself. -/
class Rounded (K : Type) [Quantity K] : Prop where
  isFinite_zero : isFinite (0 : K) = true
  le_refl {a : K} (ha : isFinite a = true) : a ≤ a
  lt_of_not_le {a b : K} (ha : a ≤ a) (hb : b ≤ b) (h : ¬ a ≤ b) : b < a
  not_le_of_lt {a b : K} (h : a < b) : ¬ b ≤ a
  sub_zero {a : K} (ha : isFinite a = true) : a - 0 = a
  sub_self {a : K} (ha : isFinite a = true) : a - a = 0
  add_neg_self {a : K} (ha : isFinite a = true) : a + (0 + -a) = 0
  sub_pos {a b : K} (ha : isFinite a = true) (hb : 0 < b) (h : b < a) :
    isFinite (a - b) = true ∧ 0 < a - b
  isFinite_of_add {a b : K} (h : isFinite (a + b) = true) : isFinite a = true
  zero_le_neg_zero : (0 : K) ≤ -0
  zero_add_zero : (0 : K) + 0 = 0
  zero_add {a : K} (ha : 0 < a) : 0 + a = a
  neg_zero_add (a : K) : -0 + a = a
  add_nonneg {a b : K} (ha : 0 ≤ a) (hb : 0 ≤ b) : 0 ≤ a + b

instance rounded_exact {K : Type} [AddCommGroup K] [LinearOrder K] [IsOrderedAddMonoid K] :
    Rounded K where
  isFinite_zero := rfl
  le_refl _ := le_refl _
  lt_of_not_le _ _ h := not_le.mp h
  not_le_of_lt h := not_le.mpr h
  sub_zero _ := sub_zero _
  sub_self _ := sub_self _
  add_neg_self {a} _ := by rw [zero_add, add_neg_cancel]
  sub_pos _ _ h := ⟨rfl, sub_pos.mpr h⟩
  isFinite_of_add _ := rfl
  zero_le_neg_zero := neg_zero.ge
  zero_add_zero := zero_add 0
  zero_add _ := zero_add _
  neg_zero_add a := by rw [neg_zero, zero_add]
  add_nonneg := add_nonneg

namespace Rounded

variable {K : Type} [Quantity K] [Rounded K] {a b : K}

theorem not_zero_lt_zero : ¬ (0 : K) < 0 := fun h => not_le_of_lt h (le_refl isFinite_zero)

theorem pos_of_not_le_zero (ha : a ≤ a) (h : ¬ a ≤ 0) : 0 < a :=
  lt_of_not_le ha (le_refl isFinite_zero) h

end Rounded

end PushRelabel.Quantity
