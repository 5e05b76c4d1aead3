import PushRelabel.Proofs.FlowGraph.Reports

/-! # What a flow graph means

The flows of a built graph are the feasible flows of its problem: what the arcs for
places carry is feasible, each feasible flow arises in this way, and as much is kept by
the targets as is delivered to the super-target.
-/

namespace PushRelabel.Problem

variable {K : Type} [AddCommGroup K] [LinearOrder K] {p : Problem K} {c : Checked p.network}

/-! ## Terminals -/

section Keys

variable {α β M : Type} [DecidableEq α] [AddCommMonoid M]

theorem sum_of_key {l : List (α × β)} (hnodup : (l.map Prod.fst).Nodup) (x : Fin l.length → M)
    (j : Fin l.length) : (∑ i : Fin l.length, if l[i].1 = l[j].1 then x i else 0) = x j := by
  refine (Finset.sum_eq_single_of_mem j (Finset.mem_univ j) fun i _ hij => ?_).trans (if_pos rfl)
  refine if_neg fun heq => hij ?_
  exact (hnodup.of_map _).get_inj_iff.mp
    (List.inj_on_of_nodup_map hnodup (List.get_mem l i) (List.get_mem l j) heq)

omit [DecidableEq α] in
theorem exists_entry_iff {l : List (α × β)} {a : α} :
    (∃ b, (a, b) ∈ l) ↔ ∃ j : Fin l.length, (l.get j).1 = a := by
  constructor
  · rintro ⟨b, hmem⟩
    obtain ⟨j, hj, heq⟩ := List.getElem_of_mem hmem
    exact ⟨⟨j, hj⟩, congrArg Prod.fst heq⟩
  · rintro ⟨j, rfl⟩
    exact ⟨l[j].2, List.getElem_mem j.isLt⟩

end Keys

namespace Role

variable {x : Role c → K}

theorem supplied_source (h : p.Accepted c) (j : Fin c.sources.length) :
    supplied x (c.sources.get j).1 = x (supply j) :=
  sum_of_key h.sources_nodup (fun i => x (supply i)) j

theorem supplied_of_not_isSource (h : p.Accepted c) {v : Fin p.network.order}
    (hv : ¬ p.IsSource v) : supplied x v = 0 := by
  refine Finset.sum_eq_zero fun j _ => if_neg fun heq => hv ?_
  exact (h.isSource_iff v).mpr (exists_entry_iff.mpr ⟨j, heq⟩)

theorem delivered_target (h : p.Accepted c) (j : Fin c.targets.length) :
    delivered x (c.targets.get j).1 = x (demand j) :=
  sum_of_key h.targets_nodup (fun i => x (demand i)) j

theorem delivered_of_not_isTarget (h : p.Accepted c) {v : Fin p.network.order}
    (hv : ¬ p.IsTarget v) : delivered x v = 0 := by
  refine Finset.sum_eq_zero fun j _ => if_neg fun heq => hv ?_
  exact (h.isTarget_iff v).mpr (exists_entry_iff.mpr ⟨j, heq⟩)

/-! ## From amounts to a feasible flow -/

namespace Balanced

/-- A node sends out what is supplied to it on top of what it takes in, if it delivers
nothing. -/
theorem emission_eq (hx : Balanced x) (v : Fin p.network.order) :
    p.emission (fun a => x (carry a)) v = supplied x v - delivered x v := by
  have hconserved := hx.conserved v
  unfold entering leaving at hconserved
  rw [emission, sub_eq_sub_iff_add_eq_add, ← hconserved, add_comm]

theorem absorption_eq (hx : Balanced x) (v : Fin p.network.order) :
    p.absorption (fun a => x (carry a)) v = delivered x v - supplied x v := by
  have hemission := hx.emission_eq v
  rw [emission] at hemission
  rw [absorption, ← neg_sub, hemission, neg_sub]

theorem emission_source (hx : Balanced x) (h : p.Accepted c) (j : Fin c.sources.length) :
    p.emission (fun a => x (carry a)) (c.sources.get j).1 = x (supply j) := by
  have hsource : p.IsSource (c.sources.get j).1 :=
    (h.isSource_iff _).mpr (exists_entry_iff.mpr ⟨j, rfl⟩)
  rw [hx.emission_eq, supplied_source h, delivered_of_not_isTarget h (h.not_isTarget hsource),
    sub_zero]

theorem absorption_target (hx : Balanced x) (h : p.Accepted c) (j : Fin c.targets.length) :
    p.absorption (fun a => x (carry a)) (c.targets.get j).1 = x (demand j) := by
  have htarget : p.IsTarget (c.targets.get j).1 :=
    (h.isTarget_iff _).mpr (exists_entry_iff.mpr ⟨j, rfl⟩)
  have hsource : ¬ p.IsSource (c.targets.get j).1 := fun hs => h.not_isTarget hs htarget
  rw [hx.absorption_eq, delivered_target h, supplied_of_not_isSource h hsource, sub_zero]

theorem supplied_eq (hx : Balanced x) (h : p.Accepted c) (v : Fin p.network.order) :
    supplied x v = if p.IsSource v then p.emission (fun a => x (carry a)) v else 0 := by
  split
  next hsource =>
    rw [hx.emission_eq, delivered_of_not_isTarget h (h.not_isTarget hsource), sub_zero]
  next hsource => exact supplied_of_not_isSource h hsource

theorem feasible (hx : Balanced x) (h : p.Accepted c) : p.Feasible fun a => x (carry a) := by
  refine ⟨fun a => hx.nonneg _, fun a => hx.le_capacity (carry a), fun v hsource htarget => ?_,
    fun v hsource => ?_, fun v most hmost => ?_, fun v htarget => ?_, fun v most hmost => ?_,
    fun v limit hlimit => ?_⟩
  · have hemission := hx.emission_eq v
    rw [supplied_of_not_isSource h hsource, delivered_of_not_isTarget h htarget, sub_zero,
      emission, sub_eq_zero] at hemission
    exact hemission.symm
  · obtain ⟨j, rfl⟩ := exists_entry_iff.mp ((h.isSource_iff v).mp hsource)
    rw [hx.emission_source h]
    exact hx.nonneg _
  · obtain ⟨j, hj, heq⟩ := List.getElem_of_mem ((h.mem_sources_iff v most).mpr hmost)
    have hle := hx.le_capacity (supply ⟨j, hj⟩)
    rw [← hx.emission_source h] at hle
    simp only [link, List.get_eq_getElem, heq] at hle
    exact hle
  · obtain ⟨j, rfl⟩ := exists_entry_iff.mp ((h.isTarget_iff v).mp htarget)
    rw [hx.absorption_target h]
    exact hx.nonneg _
  · obtain ⟨j, hj, heq⟩ := List.getElem_of_mem ((h.mem_targets_iff v most).mpr hmost)
    have hle := hx.le_capacity (demand ⟨j, hj⟩)
    rw [← hx.absorption_target h] at hle
    simp only [link, List.get_eq_getElem, heq] at hle
    exact hle
  -- all that enters a limited node passes its throttle
  · obtain ⟨k, rfl⟩ := exists_split hlimit
    obtain rfl := Option.some.inj ((limits_splits k).symm.trans hlimit)
    have hle : x (throttle k) ≤ p.limitAt k := hx.le_capacity (throttle k)
    rwa [hx.throttled, entering, hx.supplied_eq h] at hle

end Balanced

/-! ## From a feasible flow to amounts -/

/-- The amounts that make a flow of the network one of the flow graph. -/
def ofNetwork (c : Checked p.network) (f : p.network.Place → K) : Role c → K
  | carry a => f a
  | throttle k => Network.inflow f (p.origin k) +
      if p.IsSource (p.origin k) then p.emission f (p.origin k) else 0
  | supply j => p.emission f (c.sources.get j).1
  | demand j => p.absorption f (c.targets.get j).1

theorem supplied_ofNetwork (h : p.Accepted c) (f : p.network.Place → K)
    (v : Fin p.network.order) :
    supplied (ofNetwork c f) v = if p.IsSource v then p.emission f v else 0 := by
  split
  next hsource =>
    obtain ⟨j, rfl⟩ := exists_entry_iff.mp ((h.isSource_iff v).mp hsource)
    exact supplied_source h j
  next hsource => exact supplied_of_not_isSource h hsource

theorem delivered_ofNetwork (h : p.Accepted c) (f : p.network.Place → K)
    (v : Fin p.network.order) :
    delivered (ofNetwork c f) v = if p.IsTarget v then p.absorption f v else 0 := by
  split
  next htarget =>
    obtain ⟨j, rfl⟩ := exists_entry_iff.mp ((h.isTarget_iff v).mp htarget)
    exact delivered_target h j
  next htarget => exact delivered_of_not_isTarget h htarget

theorem entering_ofNetwork (h : p.Accepted c) (f : p.network.Place → K)
    (v : Fin p.network.order) :
    entering (ofNetwork c f) v =
      Network.inflow f v + if p.IsSource v then p.emission f v else 0 := by
  rw [entering, supplied_ofNetwork h]
  rfl

theorem balanced_ofNetwork [IsOrderedAddMonoid K] (h : p.Accepted c)
    {f : p.network.Place → K} (hf : p.Feasible f) : Balanced (ofNetwork c f) := by
  have hsource : ∀ j : Fin c.sources.length, p.IsSource (c.sources.get j).1 := fun j =>
    (h.isSource_iff _).mpr (exists_entry_iff.mpr ⟨j, rfl⟩)
  have htarget : ∀ j : Fin c.targets.length, p.IsTarget (c.targets.get j).1 := fun j =>
    (h.isTarget_iff _).mpr (exists_entry_iff.mpr ⟨j, rfl⟩)
  have hinflow : ∀ v, 0 ≤ Network.inflow f v := fun v =>
    Finset.sum_nonneg fun a _ => by
      split
      · exact hf.nonneg a
      · exact le_rfl
  refine ⟨fun r => ?_, fun r => ?_, fun v => ?_, fun k => ?_⟩
  · cases r with
    | carry a => exact hf.nonneg a
    | supply j => exact hf.emission_nonneg _ (hsource j)
    | demand j => exact hf.absorption_nonneg _ (htarget j)
    | throttle k =>
        refine add_nonneg (hinflow _) ?_
        split
        next hs => exact hf.emission_nonneg _ hs
        next => exact le_rfl
  · cases r with
    | carry a => exact hf.le_capacity a
    | throttle k => exact hf.limited _ _ (limits_splits k)
    | supply j =>
        exact hf.emission_le _ _ ((h.mem_sources_iff _ _).mp (List.getElem_mem j.isLt))
    | demand j =>
        exact hf.absorption_le _ _ ((h.mem_targets_iff _ _).mp (List.getElem_mem j.isLt))
  · rw [entering_ofNetwork h, leaving, delivered_ofNetwork h]
    change _ = Network.outflow f v + _
    -- what a terminal emits or absorbs makes up for the difference; any other node conserves flow
    by_cases hs : p.IsSource v
    · rw [if_pos hs, if_neg (h.not_isTarget hs), emission, add_sub_cancel, add_zero]
    · rw [if_neg hs, add_zero]
      by_cases ht : p.IsTarget v
      · rw [if_pos ht, absorption, add_sub_cancel]
      · rw [if_neg ht, add_zero, hf.conserved v hs ht]
  · exact (entering_ofNetwork h f _).symm

/-! ## Deliveries -/

theorem value_eq (h : p.Accepted c) {x : Role c → K} (hx : Balanced x) :
    p.value (fun a => x (carry a)) = ∑ j, x (demand j) := by
  rw [value, ← sum_delivered]
  apply Finset.sum_congr rfl
  intro v _
  split
  next htarget =>
    have hsource : ¬ p.IsSource v := fun hs => h.not_isTarget hs htarget
    rw [hx.absorption_eq, supplied_of_not_isSource h hsource, sub_zero]
  next htarget => exact (delivered_of_not_isTarget h htarget).symm

end Role

/-! ## The flow graph of an accepted problem -/

section Assemble

variable [IsOrderedAddMonoid K]

theorem proper_assemble (h : p.Accepted c) : (p.assemble c).Proper := by
  refine ⟨fun i => ?_, fun i => ?_, fun i => ?_, fun i => ?_⟩
  all_goals rw [Role.getElem_arcs]
  · cases Role.ofArc c i with
    | carry a => exact h.capacity_nonneg a
    | throttle k => exact h.limit_isCapacity _ _ (limits_splits k)
    | supply j => exact h.source_nonneg (List.getElem_mem j.isLt)
    | demand j => exact h.target_nonneg (List.getElem_mem j.isLt)
  · exact Role.tail_ne_head _
  · cases Role.ofArc c i with
    | carry a => exact inner_ne_superSource a.head
    | throttle k => exact splitNode_ne_superSource k
    | supply j => exact inner_ne_superSource _
    | demand j => exact exit_ne_superSource _
  · cases Role.ofArc c i with
    | carry a => exact inner_ne_superTarget a.head
    | throttle k => exact splitNode_ne_superTarget k
    | supply j => exact inner_ne_superTarget _
    | demand j => exact exit_ne_superTarget _

/-- What is delivered to the super-target is what the targets keep. -/
theorem delivered_eq_value (h : p.Accepted c) {flow : (p.assemble c).Flow}
    (hflow : (p.assemble c).IsFlow flow) :
    (p.assemble c).delivered flow = p.value fun a => Role.amount flow (.carry a) := by
  rw [Role.value_eq h ((Role.isFlow_iff flow).mp hflow), ← Role.netInflow_superTarget]
  exact (FlowGraph.netInflow_target (proper_assemble h) flow).symm

theorem feasible_of_isFlow (h : p.Accepted c) {flow : (p.assemble c).Flow}
    (hflow : (p.assemble c).IsFlow flow) : p.Feasible fun a => Role.amount flow (.carry a) :=
  ((Role.isFlow_iff flow).mp hflow).feasible h

theorem exists_isFlow_of_feasible (h : p.Accepted c) {f : p.network.Place → K}
    (hf : p.Feasible f) : ∃ flow : (p.assemble c).Flow,
      (p.assemble c).IsFlow flow ∧ (fun a => Role.amount flow (.carry a)) = f := by
  refine ⟨Role.toFlow (Role.ofNetwork c f), (Role.isFlow_iff _).mpr ?_, ?_⟩
  · rw [Role.amount_toFlow]
    exact Role.balanced_ofNetwork h hf
  · rw [Role.amount_toFlow]
    rfl

omit [IsOrderedAddMonoid K] in
theorem flows_ne_loop (flow : (p.assemble c).Flow) {e : ArcFlow K}
    (he : e ∈ (p.assemble c).flows flow) : e.tail ≠ e.head := by
  rw [Role.flows_eq] at he
  obtain ⟨a, -, rfl⟩ := List.mem_map.mp he
  exact Fin.val_ne_of_ne a.head_ne_tail.symm

end Assemble

/-! ## The built graph -/

section Build

variable [IsOrderedAddMonoid K] {g : FlowGraph K}

omit [IsOrderedAddMonoid K] in
theorem build_eq_ok (h : p.build = .ok g) : ∃ c, p.Accepted c ∧ p.assemble c = g := by
  obtain ⟨c, hcheck, hg⟩ := except_map_eq_ok_iff.mp h
  exact ⟨c, accepted_of_check hcheck, hg⟩

theorem proper_of_build (h : p.build = .ok g) : g.Proper := by
  obtain ⟨c, haccepted, rfl⟩ := build_eq_ok h
  exact proper_assemble haccepted

/-- What a flow of the built graph reports is a feasible flow of the same value. -/
theorem exists_feasible_of_isFlow (h : p.build = .ok g) {flow : g.Flow} (hflow : g.IsFlow flow) :
    ∃ f, p.Feasible f ∧ p.Reports f (g.flows flow) ∧ p.value f = g.delivered flow := by
  obtain ⟨c, haccepted, rfl⟩ := build_eq_ok h
  exact ⟨_, feasible_of_isFlow haccepted hflow, Role.reports_flows flow,
    (delivered_eq_value haccepted hflow).symm⟩

/-- Each feasible flow is reported by a flow of the built graph that delivers its value. -/
theorem exists_isFlow_reporting (h : p.build = .ok g) {f : p.network.Place → K}
    (hf : p.Feasible f) :
    ∃ flow, g.IsFlow flow ∧ p.Reports f (g.flows flow) ∧ g.delivered flow = p.value f := by
  obtain ⟨c, haccepted, rfl⟩ := build_eq_ok h
  obtain ⟨flow, hflow, rfl⟩ := exists_isFlow_of_feasible haccepted hf
  exact ⟨flow, hflow, Role.reports_flows flow, delivered_eq_value haccepted hflow⟩

/-- The built graph means the same as its network: its flows report the feasible flows,
all of them, with their values, and never a loop. -/
theorem flows_correspond_of_build (h : p.build = .ok g) :
    (∀ flow, g.IsFlow flow →
      ∃ f, p.Feasible f ∧ p.Reports f (g.flows flow) ∧ p.value f = g.delivered flow) ∧
    (∀ f, p.Feasible f →
      ∃ flow, g.IsFlow flow ∧ p.Reports f (g.flows flow) ∧ g.delivered flow = p.value f) ∧
    ∀ flow, ∀ e ∈ g.flows flow, e.tail ≠ e.head := by
  refine ⟨fun flow => exists_feasible_of_isFlow h, fun f => exists_isFlow_reporting h, ?_⟩
  obtain ⟨c, -, rfl⟩ := build_eq_ok h
  exact fun flow e => flows_ne_loop flow

end Build

/-- Two parallel arcs and a loop before a node of limited throughput, and an arc after it. -/
def bottleneck : Problem ℤ where
  network := ⟨4, #[#[(1, 2), (0, 5), (1, 1)], #[(2, 2)], #[]], by decide⟩
  limits := #v[none, some 1, none]
  sources := .list [0]
  targets := .list [2]

theorem bottleneck_build : ∃ g, bottleneck.build = .ok g :=
  ⟨bottleneck.assemble ⟨[((0 : Fin 3), 3)], [((2 : Fin 3), 2)]⟩, rfl⟩

theorem flows_correspond_bottleneck : ∃ g, bottleneck.build = .ok g ∧
    (∀ flow, g.IsFlow flow → ∃ f, bottleneck.Feasible f ∧
      bottleneck.Reports f (g.flows flow) ∧ bottleneck.value f = g.delivered flow) ∧
    (∀ f, bottleneck.Feasible f → ∃ flow, g.IsFlow flow ∧
      bottleneck.Reports f (g.flows flow) ∧ g.delivered flow = bottleneck.value f) ∧
    ∀ flow, ∀ e ∈ g.flows flow, e.tail ≠ e.head := by
  obtain ⟨g, hbuild⟩ := bottleneck_build
  exact ⟨g, hbuild, flows_correspond_of_build hbuild⟩

end PushRelabel.Problem
