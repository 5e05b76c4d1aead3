import PushRelabel.Proofs.Flow.Cut
import PushRelabel.Proofs.FlowGraph.Role

/-! # Flows as amounts for roles

In terms of roles a flow of a built graph is balanced at all nodes between the
super-terminals exactly if at each node of the network as much is taken in and supplied
as is sent out and demanded, all of it through the throttle of the node if there is one.
-/

namespace PushRelabel.Problem

variable {K : Type} {p : Problem K} {c : Checked p.network}

/-! ## Nodes -/

theorem inner_injective {u v : Fin p.network.order} (h : p.inner u = p.inner v) : u = v := by
  simpa [inner, Fin.ext_iff] using h

theorem splitNode_injective {j k : Fin p.splits.size} (h : p.splitNode j = p.splitNode k) :
    j = k := by
  simpa [splitNode, Fin.ext_iff] using h

theorem inner_ne_splitNode (v : Fin p.network.order) (k : Fin p.splits.size) :
    p.inner v ≠ p.splitNode k :=
  Fin.ne_of_val_ne (by simp only [inner, splitNode]; omega)

theorem inner_ne_superSource (v : Fin p.network.order) : p.inner v ≠ p.superSource :=
  Fin.ne_of_val_ne (by simp only [inner, superSource]; omega)

theorem inner_ne_superTarget (v : Fin p.network.order) : p.inner v ≠ p.superTarget :=
  Fin.ne_of_val_ne (by simp only [inner, superTarget]; omega)

theorem splitNode_ne_superSource (k : Fin p.splits.size) : p.splitNode k ≠ p.superSource :=
  Fin.ne_of_val_ne (by simp only [splitNode, superSource]; omega)

theorem splitNode_ne_superTarget (k : Fin p.splits.size) : p.splitNode k ≠ p.superTarget :=
  Fin.ne_of_val_ne (by simp only [splitNode, superTarget]; omega)

theorem superSource_ne_superTarget (p : Problem K) : p.superSource ≠ p.superTarget :=
  Fin.ne_of_val_ne (by simp only [superSource, superTarget]; omega)

theorem exit_cases (v : Fin p.network.order) :
    (p.limits[v] = none ∧ p.exit v = p.inner v) ∨
      ∃ k : Fin p.splits.size, p.origin k = v ∧ p.exit v = p.splitNode k := by
  cases hlimit : p.limits[v] with
  | none => exact Or.inl ⟨rfl, exit_of_unlimited hlimit⟩
  | some limit =>
      obtain ⟨k, rfl⟩ := exists_split hlimit
      exact Or.inr ⟨k, rfl, exit_splits k⟩

theorem exit_eq_inner_iff (u v : Fin p.network.order) :
    p.exit u = p.inner v ↔ u = v ∧ p.limits[v] = none := by
  constructor
  · intro h
    rcases exit_cases u with ⟨hlimit, hexit⟩ | ⟨k, -, hexit⟩
    · obtain rfl := inner_injective (hexit.symm.trans h)
      exact ⟨rfl, hlimit⟩
    · exact absurd (h.symm.trans hexit) (inner_ne_splitNode v k)
  · rintro ⟨rfl, hlimit⟩
    exact exit_of_unlimited hlimit

theorem exit_eq_splitNode_iff (u : Fin p.network.order) (k : Fin p.splits.size) :
    p.exit u = p.splitNode k ↔ u = p.origin k := by
  constructor
  · intro h
    rcases exit_cases u with ⟨-, hexit⟩ | ⟨j, rfl, hexit⟩
    · exact absurd (hexit.symm.trans h) (inner_ne_splitNode u k)
    · rw [splitNode_injective (hexit.symm.trans h)]
  · rintro rfl
    exact exit_splits k

theorem exit_ne_superSource (v : Fin p.network.order) : p.exit v ≠ p.superSource := by
  rcases exit_cases v with ⟨-, hexit⟩ | ⟨k, -, hexit⟩
  · rw [hexit]
    exact inner_ne_superSource v
  · rw [hexit]
    exact splitNode_ne_superSource k

theorem exit_ne_superTarget (v : Fin p.network.order) : p.exit v ≠ p.superTarget := by
  rcases exit_cases v with ⟨-, hexit⟩ | ⟨k, -, hexit⟩
  · rw [hexit]
    exact inner_ne_superTarget v
  · rw [hexit]
    exact splitNode_ne_superTarget k

/-- Every node other than the super-terminals is one of the network or a split node. -/
theorem node_cases (w : p.Node) (hsource : w ≠ p.superSource) (htarget : w ≠ p.superTarget) :
    (∃ v, w = p.inner v) ∨ ∃ k, w = p.splitNode k := by
  have hs : w.val ≠ p.network.order := fun h => hsource (Fin.ext h)
  have ht : w.val ≠ p.network.order + 1 := fun h => htarget (Fin.ext h)
  by_cases hlt : w.val < p.network.order
  · exact Or.inl ⟨⟨w.val, hlt⟩, rfl⟩
  · have hw := w.isLt
    refine Or.inr ⟨⟨w.val - (p.network.order + 2), by omega⟩, Fin.ext ?_⟩
    simp only [splitNode]
    omega

namespace Role

theorem tail_ne_head (r : Role c) : r.link.tail ≠ r.link.head := by
  cases r with
  | carry a =>
      intro heq
      exact a.head_ne_tail ((exit_eq_inner_iff _ _).mp heq).1.symm
  | throttle k => exact inner_ne_splitNode _ k
  | supply j => exact (inner_ne_superSource _).symm
  | demand j => exact (exit_ne_superTarget _).symm

/-- Where what a role carries comes from. -/
def upstream : Role c → p.Node
  | carry a => p.exit a.tail
  | throttle k => p.inner (p.origin k)
  | supply _ => p.superSource
  | demand j => p.exit (c.targets.get j).1

/-- Where what a role carries goes to. -/
def downstream : Role c → p.Node
  | carry a => p.inner a.head
  | throttle k => p.splitNode k
  | supply j => p.inner (c.sources.get j).1
  | demand _ => p.superTarget

theorem upstream_ofArc (i : Fin (p.assemble c).arcCount) :
    (p.assemble c).upstream i = (ofArc c i).upstream := by
  unfold FlowGraph.upstream
  rw [getElem_arcs]
  change (if (ofArc c i).link.tail = p.superTarget then (ofArc c i).link.head
    else (ofArc c i).link.tail) = _
  cases hr : ofArc c i with
  | carry a => exact if_neg (exit_ne_superTarget a.tail)
  | throttle k => exact if_neg (inner_ne_superTarget (p.origin k))
  | supply j => exact if_neg (superSource_ne_superTarget p)
  | demand j => exact if_pos rfl

theorem downstream_ofArc (i : Fin (p.assemble c).arcCount) :
    (p.assemble c).downstream i = (ofArc c i).downstream := by
  unfold FlowGraph.downstream
  rw [getElem_arcs]
  change (if (ofArc c i).link.tail = p.superTarget then p.superTarget
    else (ofArc c i).link.head) = _
  cases hr : ofArc c i with
  | carry a => exact if_neg (exit_ne_superTarget a.tail)
  | throttle k => exact if_neg (inner_ne_superTarget (p.origin k))
  | supply j => exact if_neg (superSource_ne_superTarget p)
  | demand j => exact if_pos rfl

end Role

/-! ## Amounts -/

namespace Role

def equivSum (c : Checked p.network) : Role c ≃
    p.network.Place ⊕ Fin p.splits.size ⊕ Fin c.sources.length ⊕ Fin c.targets.length where
  toFun
    | carry a => .inl a
    | throttle k => .inr (.inl k)
    | supply j => .inr (.inr (.inl j))
    | demand j => .inr (.inr (.inr j))
  invFun
    | .inl a => carry a
    | .inr (.inl k) => throttle k
    | .inr (.inr (.inl j)) => supply j
    | .inr (.inr (.inr j)) => demand j
  left_inv r := by cases r <;> rfl
  right_inv s := by rcases s with a | k | j | j <;> rfl

instance : Fintype (Role c) := Fintype.ofEquiv _ (equivSum c).symm

variable {M : Type} [AddCommMonoid M]

theorem sum_role (f : Role c → M) :
    ∑ r, f r = ∑ a, f (carry a) + (∑ k, f (throttle k) +
      (∑ j, f (supply j) + ∑ j, f (demand j))) := by
  rw [← Equiv.sum_comp (equivSum c).symm f, Fintype.sum_sum_type, Fintype.sum_sum_type,
    Fintype.sum_sum_type]
  rfl

/-- What is supplied to a node. -/
def supplied (x : Role c → M) (v : Fin p.network.order) : M :=
  ∑ j : Fin c.sources.length, if (c.sources.get j).1 = v then x (supply j) else 0

/-- What a node delivers. -/
def delivered (x : Role c → M) (v : Fin p.network.order) : M :=
  ∑ j : Fin c.targets.length, if (c.targets.get j).1 = v then x (demand j) else 0

theorem sum_delivered (x : Role c → M) : ∑ v, delivered x v = ∑ j, x (demand j) := by
  simp only [delivered]
  rw [Finset.sum_comm]
  exact Finset.sum_congr rfl fun j _ => by simp

def entering (x : Role c → M) (v : Fin p.network.order) : M :=
  Network.inflow (fun a => x (carry a)) v + supplied x v

def leaving (x : Role c → M) (v : Fin p.network.order) : M :=
  Network.outflow (fun a => x (carry a)) v + delivered x v

variable [AddCommGroup K]

/-- What the arc that plays a role carries. -/
noncomputable def amount (flow : (p.assemble c).Flow) (r : Role c) : K :=
  (p.assemble c).carried flow ((ofArc c).symm r)

theorem amount_ofArc (flow : (p.assemble c).Flow) (i : Fin (p.assemble c).arcCount) :
    amount flow (ofArc c i) = (p.assemble c).carried flow i := by
  rw [amount, Equiv.symm_apply_apply]

theorem netInflow_eq (flow : (p.assemble c).Flow) (w : p.Node) :
    (p.assemble c).netInflow flow w =
      ∑ r : Role c, (if r.downstream = w then amount flow r else 0) -
        ∑ r : Role c, if r.upstream = w then amount flow r else 0 := by
  rw [← Finset.sum_sub_distrib, ← Equiv.sum_comp (ofArc c)]
  apply Finset.sum_congr rfl
  intro i _
  rw [upstream_ofArc, downstream_ofArc, amount_ofArc]
  rfl

theorem netInflow_splitNode (flow : (p.assemble c).Flow) (k : Fin p.splits.size) :
    (p.assemble c).netInflow flow (p.splitNode k) =
      amount flow (throttle k) - leaving (amount flow) (p.origin k) := by
  refine (netInflow_eq flow (p.splitNode k)).trans ?_
  rw [sum_role, sum_role]
  simp only [upstream, downstream, inner_ne_splitNode, exit_eq_splitNode_iff,
    (splitNode_ne_superSource k).symm, (splitNode_ne_superTarget k).symm, if_false,
    Finset.sum_const_zero, zero_add, add_zero]
  congr 1
  refine (Finset.sum_eq_single_of_mem k (Finset.mem_univ k) fun j _ hj => ?_).trans (if_pos rfl)
  exact if_neg fun h => hj (splitNode_injective h)

theorem netInflow_inner (flow : (p.assemble c).Flow) (v : Fin p.network.order) :
    (p.assemble c).netInflow flow (p.inner v) =
      entering (amount flow) v -
        ((if p.limits[v] = none then leaving (amount flow) v else 0) +
          ∑ k, if p.origin k = v then amount flow (throttle k) else 0) := by
  refine (netInflow_eq flow (p.inner v)).trans ?_
  rw [sum_role, sum_role]
  have hinner : ∀ u, p.inner u = p.inner v ↔ u = v :=
    fun u => ⟨inner_injective, fun h => h ▸ rfl⟩
  simp only [upstream, downstream, hinner, exit_eq_inner_iff, (inner_ne_splitNode v _).symm,
    (inner_ne_superSource v).symm, (inner_ne_superTarget v).symm, if_false,
    Finset.sum_const_zero, zero_add, add_zero]
  congr 1
  by_cases hlimit : p.limits[v] = none
  · simp only [hlimit, and_true, if_true]
    rw [leaving, Network.outflow, delivered]
    abel
  · simp only [hlimit, and_false, if_false, Finset.sum_const_zero, zero_add, add_zero]

theorem netInflow_superTarget (flow : (p.assemble c).Flow) :
    (p.assemble c).netInflow flow p.superTarget = ∑ j, amount flow (demand j) := by
  refine (netInflow_eq flow p.superTarget).trans ?_
  rw [sum_role, sum_role]
  simp only [upstream, downstream, inner_ne_superTarget, splitNode_ne_superTarget,
    exit_ne_superTarget, superSource_ne_superTarget, if_false, if_true, Finset.sum_const_zero,
    zero_add, add_zero, sub_zero]

section Throttles

variable (flow : (p.assemble c).Flow)

theorem netInflow_unlimited {v : Fin p.network.order} (h : p.limits[v] = none) :
    (p.assemble c).netInflow flow (p.inner v) =
      entering (amount flow) v - leaving (amount flow) v := by
  have hnone : ∑ k, (if p.origin k = v then amount flow (throttle k) else 0) = 0 := by
    refine Finset.sum_eq_zero fun k _ => if_neg ?_
    rintro rfl
    rw [limits_splits] at h
    exact nomatch h
  rw [netInflow_inner, if_pos h, hnone, add_zero]

theorem netInflow_limited (k : Fin p.splits.size) :
    (p.assemble c).netInflow flow (p.inner (p.origin k)) =
      entering (amount flow) (p.origin k) - amount flow (throttle k) := by
  have hone : ∑ j, (if p.origin j = p.origin k then amount flow (throttle j) else 0) =
      amount flow (throttle k) := by
    refine (Finset.sum_eq_single_of_mem k (Finset.mem_univ k) fun j _ hj => ?_).trans (if_pos rfl)
    exact if_neg fun h => hj (splits_injective h)
  have hlimit : p.limits[p.origin k] ≠ none := by
    rw [limits_splits]
    exact Option.some_ne_none _
  rw [netInflow_inner, if_neg hlimit, hone, zero_add]

end Throttles

/-- What the amounts of a flow satisfy. -/
structure Balanced [LE K] (x : Role c → K) : Prop where
  nonneg : ∀ r, 0 ≤ x r
  le_capacity : ∀ r, x r ≤ r.link.capacity
  conserved : ∀ v, entering x v = leaving x v
  throttled : ∀ k, x (throttle k) = entering x (p.origin k)

theorem isFlow_iff [LinearOrder K] [IsOrderedAddMonoid K] (flow : (p.assemble c).Flow) :
    (p.assemble c).IsFlow flow ↔ Balanced (amount flow) := by
  have hfits : (p.assemble c).Fits flow ↔
      ∀ r : Role c, 0 ≤ amount flow r ∧ amount flow r ≤ r.link.capacity := by
    rw [FlowGraph.fits_iff_carried, ← (ofArc c).forall_congr_right]
    apply forall_congr'
    intro i
    rw [amount_ofArc, ← getElem_arcs]
  constructor
  · intro h
    have hbounds := hfits.mp h.fits
    -- a split node passes on what its throttle carries, and its first half what it takes in
    have hsplit : ∀ k, amount flow (throttle k) = leaving (amount flow) (p.origin k) := fun k =>
      sub_eq_zero.mp ((netInflow_splitNode flow k).symm.trans
        (h.conserved _ (splitNode_ne_superSource k) (splitNode_ne_superTarget k)))
    have hinner : ∀ v, (p.assemble c).netInflow flow (p.inner v) = 0 := fun v =>
      h.conserved _ (inner_ne_superSource v) (inner_ne_superTarget v)
    have hthrottle : ∀ k, amount flow (throttle k) = entering (amount flow) (p.origin k) := fun k =>
      (sub_eq_zero.mp ((netInflow_limited flow k).symm.trans (hinner _))).symm
    refine ⟨fun r => (hbounds r).1, fun r => (hbounds r).2, fun v => ?_, hthrottle⟩
    rcases exit_cases v with ⟨hlimit, -⟩ | ⟨k, rfl, -⟩
    · exact sub_eq_zero.mp ((netInflow_unlimited flow hlimit).symm.trans (hinner v))
    · exact (hthrottle k).symm.trans (hsplit k)
  · intro h
    refine ⟨hfits.mpr fun r => ⟨h.nonneg r, h.le_capacity r⟩, fun w hsource htarget => ?_⟩
    rcases node_cases w hsource htarget with ⟨v, rfl⟩ | ⟨k, rfl⟩
    · rcases exit_cases v with ⟨hlimit, -⟩ | ⟨k, rfl, -⟩
      · rw [netInflow_unlimited flow hlimit, h.conserved, sub_self]
      · rw [netInflow_limited flow k, h.throttled, sub_self]
    · rw [netInflow_splitNode, h.throttled, h.conserved, sub_self]

/-- The flow of which each arc carries the amount for its role. -/
noncomputable def toFlow (x : Role c → K) : (p.assemble c).Flow :=
  Vector.ofFn fun i =>
    if (p.assemble c).arcs[i].tail = (p.assemble c).target
    then (p.assemble c).arcs[i].capacity - x (ofArc c i) else x (ofArc c i)

theorem amount_toFlow (x : Role c → K) : amount (toFlow x) = x := by
  funext r
  obtain ⟨i, rfl⟩ := (ofArc c).surjective r
  rw [amount_ofArc, FlowGraph.carried]
  have hflow : (toFlow x)[i] = if (p.assemble c).arcs[i].tail = (p.assemble c).target
      then (p.assemble c).arcs[i].capacity - x (ofArc c i) else x (ofArc c i) := by
    simp [toFlow]
  split
  next h => rw [hflow, if_pos h, sub_sub_cancel]
  next h => rw [hflow, if_neg h]

end Role

end PushRelabel.Problem
