import Mathlib
import PushRelabel.Quantity

/-! # Exact quantities

Over an ordered commutative group no sum is rounded, every quantity is finite, and
the operations on quantities are those of the group. Integers and the elements of
an ordered field are such quantities, and so are doubles as long as all of them are
integers small enough to be added without rounding.
-/

namespace PushRelabel.Quantity

variable {K : Type} [AddCommGroup K] [LinearOrder K]

instance exact : Quantity K where
  isFinite _ := true

theorem least_eq_min (a b : K) : least a b = min a b := by
  simp only [least, le_refl, not_true_eq_false, or_false, min_def]

theorem total_eq_sum (xs : List K) : total xs = xs.sum := by
  have hfold : ∀ (ys : List K) (a : K), ys.foldl (· + ·) a = a + ys.sum := by
    intro ys
    induction ys with
    | nil => intro a; simp
    | cons y ys ih =>
        intro a
        rw [List.foldl_cons, ih, List.sum_cons, add_assoc]
  calc total xs = -0 + xs.sum := hfold xs (-0)
    _ = xs.sum := by rw [neg_zero, zero_add]

end PushRelabel.Quantity
