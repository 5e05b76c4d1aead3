import PushRelabel.Proofs.FlowGraph.Terminals
import PushRelabel.Proofs.Termination

/-! # Terminals without capacities

A source that is given without a capacity supplies what its arcs allow, and such a target absorbs
what its arcs allow. This is never a bottleneck: no source sends out more than its arcs carry on
top of what it takes in, so with any larger supply, or with none at all, the same flows are
feasible. Hence as much can be delivered as in the network without super-terminals.
-/

namespace PushRelabel

variable {K : Type} [AddCommGroup K] [LinearOrder K]

/-! ## Flows that the terminals do not bound -/

namespace Problem

variable {p : Problem K}

/-- A feasible flow of the network itself, in which sources may send out and targets may keep
without limit. -/
structure Free (p : Problem K) (f : p.network.Place → K) : Prop where
  nonneg : ∀ a, 0 ≤ f a
  le_capacity : ∀ a, f a ≤ a.capacity
  conserved : ∀ v, ¬ p.IsSource v → ¬ p.IsTarget v →
    Network.inflow f v = Network.outflow f v
  emission_nonneg : ∀ v, p.IsSource v → 0 ≤ p.emission f v
  absorption_nonneg : ∀ v, p.IsTarget v → 0 ≤ p.absorption f v
  limited : ∀ v limit, p.limits[v] = some limit →
    Network.inflow f v + (if p.IsSource v then p.emission f v else 0) ≤ limit

variable {f : p.network.Place → K}

theorem Feasible.free (h : p.Feasible f) : p.Free f :=
  ⟨h.nonneg, h.le_capacity, h.conserved, h.emission_nonneg, h.absorption_nonneg, h.limited⟩

theorem Free.feasible (h : p.Free f)
    (hemission : ∀ v most, p.Supplies v most → p.emission f v ≤ most)
    (habsorption : ∀ v most, p.Demands v most → p.absorption f v ≤ most) : p.Feasible f :=
  ⟨h.nonneg, h.le_capacity, h.conserved, h.emission_nonneg, hemission, h.absorption_nonneg,
    habsorption, h.limited⟩

section Capacities

variable [IsOrderedAddMonoid K]

theorem sum_ite_le {ι : Type} [Fintype ι] {P : ι → Prop} [DecidablePred P] {x y : ι → K}
    (h : ∀ i, x i ≤ y i) : (∑ i, if P i then x i else 0) ≤ ∑ i, if P i then y i else 0 := by
  refine Finset.sum_le_sum fun i _ => ?_
  split
  · exact h i
  · exact le_rfl

theorem Free.outflow_le (h : p.Free f) (v : Fin p.network.order) :
    Network.outflow f v ≤ p.network.outCapacity v := by
  rw [Network.outCapacity_eq]
  exact sum_ite_le h.le_capacity

theorem Free.inflow_le (h : p.Free f) (v : Fin p.network.order) :
    Network.inflow f v ≤ p.network.inCapacities[v] := by
  rw [Network.inCapacities_eq]
  exact sum_ite_le h.le_capacity

theorem Free.sum_nonneg (h : p.Free f) {P : p.network.Place → Prop} [DecidablePred P] :
    0 ≤ ∑ a, if P a then f a else 0 := by
  refine Finset.sum_nonneg fun a _ => ?_
  split
  · exact h.nonneg a
  · exact le_rfl

/-- What a source relays comes in and goes out again, so it only takes room on its arcs. -/
theorem Free.emission_le (h : p.Free f) (v : Fin p.network.order) :
    p.emission f v ≤ p.network.outCapacity v :=
  (sub_le_self _ h.sum_nonneg).trans (h.outflow_le v)

theorem Free.absorption_le (h : p.Free f) (v : Fin p.network.order) :
    p.absorption f v ≤ p.network.inCapacities[v] :=
  (sub_le_self _ h.sum_nonneg).trans (h.inflow_le v)

end Capacities

end Problem

/-! ## Larger capacities -/

/-- Terminals are left as they are, or each of a list is given a capacity that is no smaller than
what its arcs allow. -/
inductive Terminals.Relaxed {n : Nat} (own : Fin n → K) : Terminals K → Terminals K → Prop
  | same (t : Terminals K) : Relaxed own t t
  | raised (entries : List (Nat × K))
      (own_le : ∀ (v : Fin n) most, (v.val, most) ∈ entries → own v ≤ most) :
      Relaxed own (.list (entries.map Prod.fst)) (.map entries)

namespace Terminals.Relaxed

variable {net : Network K} {own : Fin net.order → K} {t t' : Terminals K}

omit [AddCommGroup K] in
theorem ids_eq (h : Relaxed own t t') : t'.ids = t.ids := by
  cases h <;> rfl

omit [AddCommGroup K] in
theorem isEmpty_eq (h : Relaxed own t t') : t'.isEmpty = t.isEmpty := by
  cases h with
  | same => rfl
  | raised entries => simp [isEmpty, count]

omit [AddCommGroup K] in
/-- What stays within the capacities of the arcs stays within those of the terminals before, if
and only if it does so after. -/
theorem forall_gives_iff (h : Relaxed own t t') {x : Fin net.order → K} (hx : ∀ v, x v ≤ own v) :
    (∀ v most, t'.Gives (own v) v most → x v ≤ most) ↔
      ∀ v most, t.Gives (own v) v most → x v ≤ most := by
  cases h with
  | same => exact Iff.rfl
  | raised entries own_le =>
      refine iff_of_true (fun v most hmost => (hx v).trans (own_le v most hmost)) ?_
      rintro v most ⟨-, rfl⟩
      exact hx v

theorem exists_located (h : Relaxed own t t') (hown : ∀ v, 0 ≤ own v)
    {located : List (Fin net.order × K)} (hlocated : Problem.locateAll net own t = .ok located) :
    ∃ raised, Problem.locateAll net own t' = .ok raised ∧
      raised.map Prod.fst = located.map Prod.fst := by
  cases h with
  | same => exact ⟨located, hlocated, rfl⟩
  | raised entries own_le =>
      refine Problem.exists_locateAll_map hlocated rfl fun e he => ⟨?_, rfl⟩
      -- a terminal that was found is a node, so its capacity is at least one of a node
      have hid : e.1 ∈ entries.map Prod.fst := List.mem_map_of_mem he
      obtain ⟨s, -, hs⟩ := (exists_of_forall₂ (forall₂_of_mapM hlocated)).1 e.1 hid
      obtain ⟨v, hv, -⟩ := except_map_eq_ok_iff.mp hs
      have hv : e.1 = v.val := Problem.locate_eq_ok_iff.mp hv
      exact (hown v).trans (own_le v e.2 (hv ▸ he))

end Terminals.Relaxed

namespace Problem

variable {p : Problem K} {s t : Terminals K}

abbrev withTerminals (p : Problem K) (sources targets : Terminals K) : Problem K :=
  { p with sources := sources, targets := targets }

theorem Free.withTerminals {f : p.network.Place → K} (h : p.Free f)
    (hs : s.ids = p.sources.ids) (ht : t.ids = p.targets.ids) : (p.withTerminals s t).Free f := by
  have hsource : ∀ v, (p.withTerminals s t).IsSource v ↔ p.IsSource v := fun v => by
    unfold IsSource
    exact iff_of_eq (congrArg (v.val ∈ ·) hs)
  have htarget : ∀ v, (p.withTerminals s t).IsTarget v ↔ p.IsTarget v := fun v => by
    unfold IsTarget
    exact iff_of_eq (congrArg (v.val ∈ ·) ht)
  refine ⟨h.nonneg, h.le_capacity, fun v hv hv' => ?_, fun v hv => ?_, fun v hv => ?_,
    fun v limit hlimit => ?_⟩
  · exact h.conserved v (fun hs => hv ((hsource v).mpr hs)) fun ht => hv' ((htarget v).mpr ht)
  · exact h.emission_nonneg v ((hsource v).mp hv)
  · exact h.absorption_nonneg v ((htarget v).mp hv)
  · rw [if_congr (hsource v) rfl rfl]
    exact h.limited v limit hlimit

omit [LinearOrder K] in
theorem value_withTerminals (f : p.network.Place → K) (ht : t.ids = p.targets.ids) :
    (p.withTerminals s t).value f = p.value f := by
  refine Finset.sum_congr rfl fun v _ => if_congr ?_ rfl rfl
  unfold IsTarget
  exact iff_of_eq (congrArg (v.val ∈ ·) ht)

variable [IsOrderedAddMonoid K]

section Relaxed

variable (hs : Terminals.Relaxed p.network.outCapacity p.sources s)
  (ht : Terminals.Relaxed (fun v : Fin p.network.order => p.network.inCapacities[v]) p.targets t)

include hs ht

/-- Larger capacities of terminals allow no other flows. -/
theorem feasible_withTerminals_iff {f : p.network.Place → K} :
    (p.withTerminals s t).Feasible f ↔ p.Feasible f := by
  have hfree : (p.withTerminals s t).Free f ↔ p.Free f :=
    ⟨fun h => h.withTerminals hs.ids_eq.symm ht.ids_eq.symm,
      fun h => h.withTerminals hs.ids_eq ht.ids_eq⟩
  have hsupplies : ∀ h : p.Free f, (∀ v most, (p.withTerminals s t).Supplies v most →
      p.emission f v ≤ most) ↔ ∀ v most, p.Supplies v most → p.emission f v ≤ most := by
    intro h
    have hgives := hs.forall_gives_iff h.emission_le
    simp only [Network.outCapacity_eq] at hgives
    exact hgives
  have hdemands : ∀ h : p.Free f, (∀ v most, (p.withTerminals s t).Demands v most →
      p.absorption f v ≤ most) ↔ ∀ v most, p.Demands v most → p.absorption f v ≤ most := by
    intro h
    have hgives := ht.forall_gives_iff h.absorption_le
    simp only [Network.inCapacities_eq] at hgives
    exact hgives
  constructor
  · intro h
    have hp := hfree.mp h.free
    exact hp.feasible ((hsupplies hp).mp h.emission_le) ((hdemands hp).mp h.absorption_le)
  · intro h
    exact (hfree.mpr h.free).feasible ((hsupplies h.free).mpr h.emission_le)
      ((hdemands h.free).mpr h.absorption_le)

theorem exists_build_withTerminals {g : FlowGraph K} (hbuild : p.build = .ok g) :
    ∃ g', (p.withTerminals s t).build = .ok g' := by
  obtain ⟨c, hcheck, -⟩ := except_map_eq_ok_iff.mp hbuild
  have h := accepted_of_check hcheck
  obtain ⟨hsources, htargets⟩ := not_isEmpty_of_check hcheck
  obtain ⟨ss, hss, hsfst⟩ := hs.exists_located h.isCapacity_outCapacity h.sources
  obtain ⟨ts, hts, htfst⟩ := ht.exists_located h.isCapacity_inCapacities h.targets
  have haccepted : (p.withTerminals s t).Accepted ⟨ss, ts⟩ := by
    refine ⟨h.limit_isCapacity, h.arc_isCapacity, hss, hts, hsfst ▸ h.sources_nodup,
      htfst ▸ h.targets_nodup, fun a ha b hb => ?_⟩
    have ha : a.1 ∈ c.sources.map Prod.fst := hsfst ▸ List.mem_map_of_mem ha
    have hb : b.1 ∈ c.targets.map Prod.fst := htfst ▸ List.mem_map_of_mem hb
    obtain ⟨a', ha', heqa⟩ := List.mem_map.mp ha
    obtain ⟨b', hb', heqb⟩ := List.mem_map.mp hb
    rw [← heqa, ← heqb]
    exact h.disjoint a' ha' b' hb'
  exact ⟨_, except_map_eq_ok_iff.mpr
    ⟨_, check_of_accepted haccepted (hs.isEmpty_eq.trans hsources) (ht.isEmpty_eq.trans htargets),
      rfl⟩⟩

end Relaxed

end Problem

/-! ## What can be delivered -/

/-- What the flows of a flow graph deliver to the super-target. -/
def FlowGraph.deliveries (g : FlowGraph K) : Set K :=
  {a | ∃ flow, g.IsFlow flow ∧ g.delivered flow = a}

variable [IsOrderedAddMonoid K] {p : Problem K} {g : FlowGraph K}

/-- Something is the most that can be delivered, if the graph fits into memory: the sequential
engine computes it. -/
theorem FlowGraph.exists_isGreatest_deliveries (hproper : g.Proper)
    (hroom : Room.Holds Word.bytes g.nodeCount) : ∃ most, IsGreatest g.deliveries most := by
  let settings : Settings := ⟨.sequential, .none, 1, .nodes 1⟩
  have hflow := g.isFlow_initialFlow hproper
  have hends : Ends (WorkingSet.Overflows g.nodeCount 1) (fun fuel => TwoPass.run settings fuel)
      (.start g.initialFlow (.start false none)) :=
    TwoPass.ends_of_passesEnd hproper (Discharger.passesEnd_sequential hproper le_rfl _)
      hflow.fits ⟨rfl, rfl⟩
  obtain ⟨fuel, r, hends, hexcused⟩ := hends
  have hrun := hends fuel le_rfl
  cases r with
  | error h q =>
      obtain ⟨-, hover⟩ := hexcused h q rfl
      have hword : (1 : Nat) < Word.size := by decide
      exact absurd ⟨hroom, hword⟩ hover
  | ok _ q =>
      have hmaximal := TwoPass.maximal_of_run hproper hflow hrun
      obtain ⟨X, hsource, htarget, hcut⟩ := hmaximal.saturated
      refine ⟨g.delivered q.preflow.flow, ⟨_, hmaximal.isFlow, rfl⟩, ?_⟩
      rintro a ⟨flow, hflow, rfl⟩
      rw [hcut]
      exact hflow.delivered_le hproper hsource htarget

namespace Problem

theorem deliveries_of_build (hbuild : p.build = .ok g) :
    g.deliveries = {a | ∃ f, p.Feasible f ∧ p.value f = a} := by
  ext a
  constructor
  · rintro ⟨flow, hflow, rfl⟩
    obtain ⟨f, hf, -, hvalue⟩ := exists_feasible_of_isFlow hbuild hflow
    exact ⟨f, hf, hvalue⟩
  · rintro ⟨f, hf, rfl⟩
    obtain ⟨flow, hflow, -, hdelivered⟩ := exists_isFlow_reporting hbuild hf
    exact ⟨flow, hflow, hdelivered⟩

theorem deliveries_withTerminals {s t : Terminals K} {g' : FlowGraph K}
    (hs : Terminals.Relaxed p.network.outCapacity p.sources s)
    (ht : Terminals.Relaxed (fun v : Fin p.network.order => p.network.inCapacities[v]) p.targets t)
    (hbuild : p.build = .ok g) (hbuild' : (p.withTerminals s t).build = .ok g') :
    g'.deliveries = g.deliveries := by
  rw [deliveries_of_build hbuild, deliveries_of_build hbuild']
  ext a
  refine exists_congr fun f => ?_
  rw [feasible_withTerminals_iff hs ht, value_withTerminals (p := p) f ht.ids_eq]

/-- Between terminals without capacities, all flows that the network allows are feasible. -/
theorem feasible_iff_free {ids ids' : List Nat} (hs : p.sources = .list ids)
    (ht : p.targets = .list ids') {f : p.network.Place → K} : p.Feasible f ↔ p.Free f := by
  refine ⟨Feasible.free, fun h => h.feasible (fun v most hmost => ?_) fun v most hmost => ?_⟩
  · rw [Supplies, hs] at hmost
    rw [hmost.2, ← Network.outCapacity_eq]
    exact h.emission_le v
  · rw [Demands, ht] at hmost
    rw [hmost.2, ← Network.inCapacities_eq]
    exact h.absorption_le v

/-- Terminals without capacities are never a bottleneck. If such sources, or such targets, or both
are given capacities that are no smaller than what their arcs allow, then a flow graph is built
that can deliver exactly the same; and if neither have capacities, that is what the network allows
without super-terminals. In a graph that fits into memory, something is the most of it. -/
theorem list_never_binds (hbuild : p.build = .ok g) :
    (∀ s t, Terminals.Relaxed p.network.outCapacity p.sources s →
      Terminals.Relaxed (fun v : Fin p.network.order => p.network.inCapacities[v]) p.targets t →
      ∃ g', (p.withTerminals s t).build = .ok g' ∧ g'.deliveries = g.deliveries) ∧
    (∀ ids ids', p.sources = .list ids → p.targets = .list ids' →
      g.deliveries = {a | ∃ f, p.Free f ∧ p.value f = a}) ∧
    (Room.Holds Word.bytes g.nodeCount → ∃ most, IsGreatest g.deliveries most) := by
  refine ⟨fun s t hs ht => ?_, fun ids ids' hs ht => ?_, ?_⟩
  · obtain ⟨g', hbuild'⟩ := exists_build_withTerminals hs ht hbuild
    exact ⟨g', hbuild', deliveries_withTerminals hs ht hbuild hbuild'⟩
  · rw [deliveries_of_build hbuild]
    ext a
    exact exists_congr fun f => and_congr_left' (feasible_iff_free hs ht)
  · exact FlowGraph.exists_isGreatest_deliveries (proper_of_build hbuild)

theorem list_never_binds_bottleneck : ∃ g g',
    bottleneck.build = .ok g ∧ Room.Holds Word.bytes g.nodeCount ∧
    (bottleneck.withTerminals (.map [(0, 7)]) (.list [2])).build = .ok g' ∧
    g'.deliveries = g.deliveries ∧
    g.deliveries = {a | ∃ f, bottleneck.Free f ∧ bottleneck.value f = a} ∧
    ∃ most, IsGreatest g.deliveries most := by
  have hbuild : bottleneck.build =
      .ok (bottleneck.assemble ⟨[((0 : Fin 3), 3)], [((2 : Fin 3), 2)]⟩) := rfl
  have hroom : Room.Holds Word.bytes
      (bottleneck.assemble ⟨[((0 : Fin 3), 3)], [((2 : Fin 3), 2)]⟩).nodeCount := by decide
  obtain ⟨hraised, hfree, hgreatest⟩ := list_never_binds hbuild
  have hsources : Terminals.Relaxed bottleneck.network.outCapacity bottleneck.sources
      (.map [(0, 7)]) := by
    refine .raised [(0, 7)] fun v most hmost => ?_
    obtain ⟨hv, rfl⟩ := Prod.mk.inj (List.mem_singleton.mp hmost)
    obtain rfl : v = ⟨0, by decide⟩ := Fin.ext hv
    decide
  obtain ⟨g', hbuild', heq⟩ := hraised _ _ hsources (.same _)
  exact ⟨_, g', hbuild, hroom, hbuild', heq, hfree [0] [2] rfl rfl, hgreatest hroom⟩

end Problem

end PushRelabel
