import PushRelabel.Proofs.Flow.Carried

/-! # Cuts

What enters a set of nodes is what its arcs carry across its boundary. So no flow
delivers more than the capacity of a cut, and one that saturates the arcs leaving a
cut and leaves the arcs entering it empty delivers as much.
-/

namespace PushRelabel.FlowGraph

variable {K : Type} [AddCommGroup K]

/-- The capacity of the arcs that lead out of a set of nodes. -/
def cutCapacity (g : FlowGraph K) (X : Finset g.Node) : K :=
  ∑ i : Fin g.arcCount, if g.upstream i ∈ X ∧ g.downstream i ∉ X then g.arcs[i].capacity else 0

/-- The capacities of the cuts between the super-source and the super-target. -/
def cutCapacities (g : FlowGraph K) : Set K :=
  {b | ∃ X : Finset g.Node, g.source ∈ X ∧ g.target ∉ X ∧ g.cutCapacity X = b}

variable {g : FlowGraph K}

theorem sum_netInflow (flow : g.Flow) (X : Finset g.Node) :
    ∑ v ∈ X, g.netInflow flow v =
      ∑ i : Fin g.arcCount, ((if g.downstream i ∈ X then g.carried flow i else 0) -
        if g.upstream i ∈ X then g.carried flow i else 0) := by
  simp only [netInflow]
  rw [Finset.sum_comm]
  apply Finset.sum_congr rfl
  intro i _
  rw [Finset.sum_sub_distrib, Finset.sum_ite_eq, Finset.sum_ite_eq]

theorem sum_netInflow_univ (flow : g.Flow) : ∑ v, g.netInflow flow v = 0 := by
  rw [sum_netInflow]
  simp

/-- A set of nodes takes in what is carried into it, less what is carried out. -/
theorem sum_netInflow_eq_crossing (flow : g.Flow) (X : Finset g.Node) :
    ∑ v ∈ X, g.netInflow flow v =
      ∑ i : Fin g.arcCount,
        ((if g.upstream i ∉ X ∧ g.downstream i ∈ X then g.carried flow i else 0) -
          if g.upstream i ∈ X ∧ g.downstream i ∉ X then g.carried flow i else 0) := by
  rw [sum_netInflow]
  apply Finset.sum_congr rfl
  intro i _
  by_cases hup : g.upstream i ∈ X <;> by_cases hdown : g.downstream i ∈ X <;> simp [hup, hdown]

variable [LinearOrder K] [IsOrderedAddMonoid K]

omit [IsOrderedAddMonoid K] in
theorem delivered_eq_sum (flow : g.Flow) :
    g.delivered flow = ∑ i : Fin g.arcCount,
      if g.arcs[i].tail = g.target then g.arcs[i].capacity - flow[i] else 0 := by
  rw [delivered, Quantity.total_eq_sum, leaving_eq, List.map_map, ← Finset.sum_filter,
    ← List.sum_toFinset _ ((List.nodup_finRange _).filter _)]
  refine Finset.sum_congr ?_ fun _ _ => rfl
  ext i
  simp

omit [IsOrderedAddMonoid K] in
/-- What reaches the super-target is what is delivered. -/
theorem netInflow_target (hproper : g.Proper) (flow : g.Flow) :
    g.netInflow flow g.target = g.delivered flow := by
  rw [delivered_eq_sum, netInflow]
  apply Finset.sum_congr rfl
  intro i _
  by_cases htail : g.arcs[i].tail = g.target
  · have hup : g.upstream i ≠ g.target := by
      rw [upstream, if_pos htail]
      exact hproper.head_ne_target i
    have hdown : g.downstream i = g.target := if_pos htail
    rw [if_pos hdown, if_neg hup, if_pos htail, carried_of_target htail, sub_zero]
  · have hup : g.upstream i ≠ g.target := by
      rw [upstream, if_neg htail]
      exact htail
    have hdown : g.downstream i ≠ g.target := by
      rw [downstream, if_neg htail]
      exact hproper.head_ne_target i
    rw [if_neg hdown, if_neg hup, if_neg htail, sub_zero]

theorem Fits.carried_nonneg {flow : g.Flow} (hfits : g.Fits flow) (i : Fin g.arcCount) :
    0 ≤ g.carried flow i := by
  unfold carried
  split
  · exact sub_nonneg.mpr (hfits i).2
  · exact (hfits i).1

theorem Fits.carried_le {flow : g.Flow} (hfits : g.Fits flow) (i : Fin g.arcCount) :
    g.carried flow i ≤ g.arcs[i].capacity := by
  unfold carried
  split
  · exact sub_le_self _ (hfits i).1
  · exact (hfits i).2

theorem fits_iff_carried (flow : g.Flow) :
    g.Fits flow ↔
      ∀ i : Fin g.arcCount, 0 ≤ g.carried flow i ∧ g.carried flow i ≤ g.arcs[i].capacity := by
  refine ⟨fun h i => ⟨h.carried_nonneg i, h.carried_le i⟩, fun h i => ?_⟩
  obtain ⟨hnonneg, hle⟩ := h i
  unfold carried at hnonneg hle
  split at hnonneg
  next htarget =>
    rw [if_pos htarget] at hle
    exact ⟨(sub_le_self_iff _).mp hle, sub_nonneg.mp hnonneg⟩
  next htarget =>
    rw [if_neg htarget] at hle
    exact ⟨hnonneg, hle⟩

theorem isFlow_initialFlow (hproper : g.Proper) : g.IsFlow g.initialFlow := by
  refine ⟨(fits_iff_carried _).mpr fun i => ?_, fun v _ _ => netInflow_initialFlow v⟩
  rw [carried_initialFlow]
  exact ⟨le_rfl, hproper.capacity_nonneg i⟩

/-- What enters the far side of a cut is at most the capacity of the cut. -/
theorem Fits.sum_compl_netInflow_le {flow : g.Flow} (hfits : g.Fits flow) (X : Finset g.Node) :
    ∑ v ∈ Xᶜ, g.netInflow flow v ≤ g.cutCapacity X := by
  rw [sum_netInflow_eq_crossing, cutCapacity]
  apply Finset.sum_le_sum
  intro i _
  have hnonneg := hfits.carried_nonneg i
  have hle := hfits.carried_le i
  by_cases hup : g.upstream i ∈ X <;> by_cases hdown : g.downstream i ∈ X <;> simp [hup, hdown]
  · exact hle
  · exact hnonneg

omit [LinearOrder K] [IsOrderedAddMonoid K] in
/-- A cut whose leaving arcs are saturated and whose entering arcs are empty is
crossed by its capacity. -/
theorem sum_compl_netInflow_eq {flow : g.Flow} {X : Finset g.Node}
    (hfull : ∀ i : Fin g.arcCount, g.upstream i ∈ X → g.downstream i ∉ X →
      g.carried flow i = g.arcs[i].capacity)
    (hempty : ∀ i : Fin g.arcCount, g.upstream i ∉ X → g.downstream i ∈ X →
      g.carried flow i = 0) :
    ∑ v ∈ Xᶜ, g.netInflow flow v = g.cutCapacity X := by
  rw [sum_netInflow_eq_crossing, cutCapacity]
  apply Finset.sum_congr rfl
  intro i _
  by_cases hup : g.upstream i ∈ X <;> by_cases hdown : g.downstream i ∈ X <;> simp [hup, hdown]
  · exact hfull i hup hdown
  · exact hempty i hup hdown

/-- A set of nodes that nothing is carried into takes nothing in. -/
theorem Fits.sum_netInflow_nonpos {flow : g.Flow} (hfits : g.Fits flow) {Y : Finset g.Node}
    (hempty : ∀ i : Fin g.arcCount, g.upstream i ∉ Y → g.downstream i ∈ Y →
      g.carried flow i = 0) :
    ∑ v ∈ Y, g.netInflow flow v ≤ 0 := by
  rw [sum_netInflow_eq_crossing]
  apply Finset.sum_nonpos
  intro i _
  have hnonneg := hfits.carried_nonneg i
  by_cases hup : g.upstream i ∈ Y <;> by_cases hdown : g.downstream i ∈ Y <;> simp [hup, hdown]
  · exact hnonneg
  · exact (hempty i hup hdown).le

/-- No flow delivers more than the capacity of a cut. -/
theorem IsFlow.delivered_le (hproper : g.Proper) {flow : g.Flow} (hflow : g.IsFlow flow)
    {X : Finset g.Node} (hsource : g.source ∈ X) (htarget : g.target ∉ X) :
    g.delivered flow ≤ g.cutCapacity X := by
  have hsum : ∑ v ∈ Xᶜ, g.netInflow flow v = g.netInflow flow g.target := by
    refine Finset.sum_eq_single_of_mem g.target (Finset.mem_compl.mpr htarget) fun v hv hne => ?_
    refine hflow.conserved v (fun heq => ?_) hne
    exact (Finset.mem_compl.mp hv) (heq ▸ hsource)
  rw [← netInflow_target hproper, ← hsum]
  exact hflow.fits.sum_compl_netInflow_le X

end PushRelabel.FlowGraph
