import PushRelabel.Network
import PushRelabel.FlowGraph.Build
import PushRelabel.Proofs.Exact
import PushRelabel.Proofs.Tables

/-! # Places of arcs

An arc of a network that is not a loop has a place: its tail, and its position among
the arcs that leave the tail and are no loops. Parallel arcs have different places. A
flow of a network assigns an amount to each place.
-/

namespace PushRelabel.Network

variable {K : Type} {net : Network K}

structure Place (net : Network K) where
  tail : Fin net.order
  position : Fin (net.proper tail).length
deriving DecidableEq

namespace Place

def head (a : net.Place) : Fin net.order := ((net.proper a.tail)[a.position]).1

def capacity (a : net.Place) : K := ((net.proper a.tail)[a.position]).2

theorem head_ne_tail (a : net.Place) : a.head ≠ a.tail := by
  have hmem : (net.proper a.tail)[a.position] ∈ net.proper a.tail := List.getElem_mem _
  exact of_decide_eq_true (List.mem_filter.mp hmem).2

def equivSigma (net : Network K) : net.Place ≃ Σ v : Fin net.order, Fin (net.proper v).length where
  toFun a := ⟨a.tail, a.position⟩
  invFun a := ⟨a.1, a.2⟩
  left_inv _ := rfl
  right_inv _ := rfl

instance (net : Network K) : Fintype net.Place := Fintype.ofEquiv _ (equivSigma net).symm

end Place

section Sums

variable {M : Type} [AddCommMonoid M]

theorem sum_place (f : net.Place → M) :
    ∑ a, f a = ∑ v : Fin net.order, ∑ i : Fin (net.proper v).length, f ⟨v, i⟩ := by
  rw [← Fintype.sum_sigma' fun v i => f ⟨v, i⟩]
  exact Fintype.sum_equiv (Place.equivSigma net) _ _ fun _ => rfl

/-- What the arcs that leave a node carry. -/
def outflow (f : net.Place → M) (v : Fin net.order) : M := ∑ a, if a.tail = v then f a else 0

/-- What the arcs that enter a node carry. -/
def inflow (f : net.Place → M) (v : Fin net.order) : M := ∑ a, if a.head = v then f a else 0

theorem outflow_eq (f : net.Place → M) (v : Fin net.order) :
    outflow f v = ∑ i : Fin (net.proper v).length, f ⟨v, i⟩ := by
  rw [outflow, sum_place, Finset.sum_eq_single v]
  · simp
  · intro u _ hu
    simp [hu]
  · intro hv
    exact absurd (Finset.mem_univ v) hv

end Sums

section Capacities

variable [AddCommGroup K] [LinearOrder K]

theorem outCapacity_eq (v : Fin net.order) : net.outCapacity v = outflow Place.capacity v := by
  rw [outCapacity, Quantity.total_eq_sum, outflow_eq]
  exact (Fin.sum_univ_fun_getElem (net.proper v) Prod.snd).symm

omit [LinearOrder K] in
theorem getElem_foldl_add {n : Nat} (as : List (Fin n × K)) (sums : Vector K n) (v : Fin n) :
    (as.foldl (fun sums a => sums.put a.1 (sums[a.1] + a.2)) sums)[v] =
      sums[v] + (as.map fun a => if a.1 = v then a.2 else 0).sum := by
  induction as generalizing sums with
  | nil => simp
  | cons a as ih =>
      rw [List.foldl_cons, ih, Vector.getElem_put, List.map_cons, List.sum_cons, ← add_assoc]
      congr 1
      by_cases hv : v = a.1
      · rw [if_pos hv, if_pos hv.symm, hv]
      · rw [if_neg hv, if_neg (Ne.symm hv), add_zero]

theorem inCapacities_eq (v : Fin net.order) : net.inCapacities[v] = inflow Place.capacity v := by
  rw [inCapacities, getElem_foldl_add, inflow, sum_place, List.map_flatMap, List.flatMap_def,
    List.sum_flatten, List.map_map, ← Fin.sum_univ_def]
  simp only [Vector.getElem_fin, Vector.getElem_replicate, zero_add]
  apply Finset.sum_congr rfl
  intro u _
  exact (Fin.sum_univ_fun_getElem (net.proper u) fun a => if a.1 = v then a.2 else 0).symm

end Capacities

end PushRelabel.Network
