import PushRelabel.Preflow
import PushRelabel.Proofs.Double
import PushRelabel.Proofs.FlowGraph.Amounts

/-! # Arcs of the terminals

The arcs that leave the super-source and the super-target carry at most what the terminals may
give. A capacity that is given with a terminal is checked, but what the arcs of a terminal allow
together is not: it is infinite if one of these arcs is, or if their sum exceeds all finite
quantities. Unless there is such a terminal, the first preflow has only finite amounts there.
-/

namespace PushRelabel

open Quantity (isFinite Rounded)

variable {K : Type} [Quantity K]

/-! ## Flow graphs with finite terminals -/

namespace FlowGraph

variable {g : FlowGraph K} {flow : g.Flow}

omit [Quantity K] in
/-- An arc that leaves the super-source or the super-target. -/
def IsTerminalArc (g : FlowGraph K) (i : Fin g.arcCount) : Prop :=
  g.arcs[i].tail = g.source ∨ g.arcs[i].tail = g.target

/-- The arcs of the terminals have finite capacities. -/
def BoundedAtTerminals (g : FlowGraph K) : Prop :=
  ∀ i, g.IsTerminalArc i → isFinite g.arcs[i].capacity = true

/-- Only finite amounts can still be sent along the arcs of the terminals, both ways. -/
def FiniteAtTerminals (g : FlowGraph K) (flow : g.Flow) : Prop :=
  ∀ d : g.DartOf, g.IsTerminalArc d.arc → isFinite (g.residual flow d) = true

theorem finiteAtTerminals_iff : g.FiniteAtTerminals flow ↔ ∀ i, g.IsTerminalArc i →
    isFinite flow[i] = true ∧ isFinite (g.arcs[i].capacity - flow[i]) = true := by
  constructor
  · exact fun h i hi => ⟨h ⟨g.source, i, true⟩ hi, h ⟨g.source, i, false⟩ hi⟩
  · rintro h ⟨other, i, reversed⟩ hi
    cases reversed with
    | true => exact (h i hi).1
    | false => exact (h i hi).2

omit [Quantity K] in
/-- The arcs of the super-source lead to different nodes, and not back to it. -/
structure Fanned (g : FlowGraph K) : Prop where
  head_ne_source : ∀ i : Fin g.arcCount, g.arcs[i].tail = g.source → g.arcs[i].head ≠ g.source
  arc_eq : ∀ i j : Fin g.arcCount, g.arcs[i].tail = g.source → g.arcs[j].tail = g.source →
    g.arcs[i].head = g.arcs[j].head → i = j

omit [Quantity K] in
theorem Fanned.eq_of_other_eq (h : g.Fanned) {d e : g.DartOf} (hd : d ∈ g.leaving g.source)
    (he : e ∈ g.leaving g.source) (hother : d.other = e.other) : d = e := by
  obtain ⟨hdr, hdt, hdo⟩ := g.mem_leaving_iff.mp hd
  obtain ⟨her, het, heo⟩ := g.mem_leaving_iff.mp he
  rcases d with ⟨_, i, _⟩
  rcases e with ⟨_, j, _⟩
  dsimp only at *
  obtain rfl := h.arc_eq i j hdt het (hdo.trans (hother.trans heo.symm))
  rw [hdr, her, hother]

omit [Quantity K] in
theorem Fanned.arc_ne (h : g.Fanned) {d e : g.DartOf} (hd : d ∈ g.leaving g.source)
    (he : e ∈ g.leaving g.source) (hne : d ≠ e) : d.arc ≠ e.arc := by
  intro heq
  refine hne (h.eq_of_other_eq hd he ?_)
  rw [← (g.mem_leaving_iff.mp hd).2.2, ← (g.mem_leaving_iff.mp he).2.2, heq]

omit [Quantity K] in
theorem Fanned.other_ne_source (h : g.Fanned) {d : g.DartOf} (hd : d ∈ g.leaving g.source) :
    d.other ≠ g.source := by
  obtain ⟨-, htail, hhead⟩ := g.mem_leaving_iff.mp hd
  exact hhead ▸ h.head_ne_source d.arc htail

omit [Quantity K] in
theorem nodup_leaving (v : g.Node) : (g.leaving v).Nodup := by
  rw [leaving_eq]
  refine ((List.nodup_finRange _).filter _).map fun i j h => ?_
  exact (Dart.mk.inj h).2.1

theorem getElem_initialFlow (g : FlowGraph K) (i : Fin g.arcCount) :
    g.initialFlow[i] = if g.arcs[i].tail = g.target then g.arcs[i].capacity else 0 := by
  simp [initialFlow]

variable [Rounded K]

theorem finiteAtTerminals_initialFlow (hcapacity : g.BoundedAtTerminals) :
    g.FiniteAtTerminals g.initialFlow := by
  refine finiteAtTerminals_iff.mpr fun i hi => ?_
  have hfinite := hcapacity i hi
  rw [getElem_initialFlow]
  split
  · rw [Rounded.sub_self hfinite]
    exact ⟨hfinite, Rounded.isFinite_zero⟩
  · rw [Rounded.sub_zero hfinite]
    exact ⟨Rounded.isFinite_zero, hfinite⟩

/-- Nothing is delivered at first. -/
theorem delivered_initialFlow_of_bounded (hcapacity : g.BoundedAtTerminals)
    (htarget : g.leaving g.target ≠ []) : g.delivered g.initialFlow = 0 := by
  have hterm : ∀ d ∈ g.leaving g.target, g.arcs[d.arc].capacity - g.initialFlow[d.arc] = 0 := by
    intro d hd
    have htail := (g.mem_leaving_iff.mp hd).2.1
    rw [getElem_initialFlow, if_pos htail, Rounded.sub_self (hcapacity d.arc (Or.inr htail))]
  have hzeros : ∀ n, (List.replicate n (0 : K)).foldl (· + ·) 0 = 0 := by
    intro n
    induction n with
    | zero => rfl
    | succ n ih => rw [List.replicate_succ, List.foldl_cons, Rounded.zero_add_zero, ih]
  obtain ⟨n, hn⟩ := Nat.exists_eq_succ_of_ne_zero (List.length_eq_zero_iff.not.mpr htarget)
  rw [delivered, List.map_congr_left hterm, List.map_const', hn, Quantity.total,
    List.replicate_succ, List.foldl_cons, Rounded.neg_zero_add, hzeros]

end FlowGraph

/-! ## The first preflow -/

namespace Preflow

variable {g : FlowGraph K} {p : Preflow g} {ds : List g.DartOf}

/-- What holds while the arcs of the super-source are saturated, some of which are left. -/
structure Filling (p : Preflow g) (ds : List g.DartOf) : Prop where
  excess : ∀ v, v ≠ g.source → isFinite p.excess[v] = true
  flow : g.FiniteAtTerminals p.flow
  waiting_excess : ∀ d ∈ ds, p.excess[d.other] = 0
  waiting_flow : ∀ d ∈ ds, p.flow[d.arc] = 0

theorem getElem_excess_send (p : Preflow g) {v u : g.Node} (hu : u ≠ v) {d : g.DartOf}
    (hd : d.other ≠ v) (a : K) :
    (p.send v d a).excess[u] = if u = d.other then p.excess[d.other] + a else p.excess[u] := by
  unfold send
  dsimp only
  rw [Vector.getElem_put, Vector.getElem_put, Vector.getElem_put, if_neg hd, if_neg hu]

theorem getElem_flow_send (p : Preflow g) (v : g.Node) {d : g.DartOf} (hd : d.reversed = false)
    (a : K) (i : Fin g.arcCount) :
    (p.send v d a).flow[i] = if i = d.arc then p.flow[d.arc] + a else p.flow[i] := by
  rw [flow_send, FlowGraph.push, Vector.getElem_put, hd]
  rfl

variable [Rounded K]

/-- Nothing has been sent along a dart that waits. -/
theorem Filling.residual_eq (h : p.Filling ds) (hcapacity : g.BoundedAtTerminals)
    {d : g.DartOf} (hd : d ∈ ds) (hleaving : d ∈ g.leaving g.source) :
    g.residual p.flow d = g.arcs[d.arc].capacity := by
  obtain ⟨hforward, htail, -⟩ := g.mem_leaving_iff.mp hleaving
  rw [FlowGraph.residual, hforward, h.waiting_flow d hd]
  exact Rounded.sub_zero (hcapacity d.arc (Or.inl htail))

/-- The first dart that waits takes its capacity, and the others lead elsewhere. -/
theorem Filling.send (hg : g.Fanned) (hcapacity : g.BoundedAtTerminals) {d : g.DartOf}
    (hds : ∀ e ∈ d :: ds, e ∈ g.leaving g.source) (hnodup : (d :: ds).Nodup)
    (h : p.Filling (d :: ds)) (hpos : 0 < g.arcs[d.arc].capacity) :
    (p.send g.source d g.arcs[d.arc].capacity).Filling ds := by
  have hd := hds d List.mem_cons_self
  obtain ⟨hforward, htail, -⟩ := g.mem_leaving_iff.mp hd
  have hfinite := hcapacity d.arc (Or.inl htail)
  have hne : ∀ e ∈ ds, e ≠ d := fun e he heq => (List.nodup_cons.mp hnodup).1 (heq ▸ he)
  have hexcess : ∀ u, u ≠ g.source → (p.send g.source d g.arcs[d.arc].capacity).excess[u] =
      if u = d.other then g.arcs[d.arc].capacity else p.excess[u] := by
    intro u hu
    rw [getElem_excess_send p hu (hg.other_ne_source hd), h.waiting_excess d List.mem_cons_self,
      Rounded.zero_add hpos]
  have hflow := p.getElem_flow_send g.source hforward g.arcs[d.arc].capacity
  rw [h.waiting_flow d List.mem_cons_self, Rounded.zero_add hpos] at hflow
  refine
    { excess := fun v hv => ?excess
      flow := FlowGraph.finiteAtTerminals_iff.mpr fun i hi => ?flow
      waiting_excess := fun e he => ?waitingExcess
      waiting_flow := fun e he => ?waitingFlow }
  case excess =>
    rw [hexcess v hv]
    split
    · exact hfinite
    · exact h.excess v hv
  case flow =>
    rw [hflow]
    split
    next heq =>
      rw [heq, Rounded.sub_self hfinite]
      exact ⟨hfinite, Rounded.isFinite_zero⟩
    next => exact FlowGraph.finiteAtTerminals_iff.mp h.flow i hi
  case waitingExcess =>
    have hmem := List.mem_cons_of_mem d he
    -- no two arcs of the super-source have the same head
    have hother : e.other ≠ d.other :=
      fun heq => hne e he (hg.eq_of_other_eq (hds e hmem) hd heq)
    rw [hexcess e.other (hg.other_ne_source (hds e hmem)), if_neg hother]
    exact h.waiting_excess e hmem
  case waitingFlow =>
    have hmem := List.mem_cons_of_mem d he
    rw [hflow, if_neg (hg.arc_ne (hds e hmem) hd (hne e he))]
    exact h.waiting_flow e hmem

theorem Filling.saturateDart (hg : g.Fanned) (hcapacity : g.BoundedAtTerminals)
    {d : g.DartOf} (hds : ∀ e ∈ d :: ds, e ∈ g.leaving g.source)
    (hnodup : (d :: ds).Nodup) (h : p.Filling (d :: ds)) : (p.saturateDart d).Filling ds := by
  unfold Preflow.saturateDart
  dsimp only
  rw [h.residual_eq hcapacity List.mem_cons_self (hds d List.mem_cons_self)]
  split
  next hpos => exact h.send hg hcapacity hds hnodup hpos
  next =>
    exact ⟨h.excess, h.flow, fun e he => h.waiting_excess e (List.mem_cons_of_mem d he),
      fun e he => h.waiting_flow e (List.mem_cons_of_mem d he)⟩

theorem Filling.foldl_saturateDart (hg : g.Fanned) (hcapacity : g.BoundedAtTerminals)
    (hds : ∀ e ∈ ds, e ∈ g.leaving g.source) (hnodup : ds.Nodup) (h : p.Filling ds) :
    (ds.foldl Preflow.saturateDart p).Filling [] := by
  induction ds generalizing p with
  | nil => exact h
  | cons d ds ih =>
      exact ih (fun e he => hds e (List.mem_cons_of_mem d he)) (List.nodup_cons.mp hnodup).2
        (h.saturateDart hg hcapacity hds hnodup)

/-- Only the super-source may owe more than a finite amount. -/
theorem finite_saturate_initialFlow (hg : g.Fanned) (hcapacity : g.BoundedAtTerminals) :
    g.FiniteAtTerminals (ofFlow g.initialFlow).saturate.flow ∧
      ∀ v, v ≠ g.source → isFinite (ofFlow g.initialFlow).saturate.excess[v] = true := by
  have hzero : ∀ v : g.Node, (Vector.replicate g.nodeCount (0 : K))[v] = 0 := by simp
  have hfilling : (ofFlow g.initialFlow).Filling (g.leaving g.source) := by
    refine ⟨fun v _ => ?_, FlowGraph.finiteAtTerminals_initialFlow hcapacity, fun d _ => hzero _,
      fun d hd => ?_⟩
    · rw [ofFlow, hzero]
      exact Rounded.isFinite_zero
    · have htail := (g.mem_leaving_iff.mp hd).2.1
      rw [ofFlow, FlowGraph.getElem_initialFlow, htail, if_neg g.source_ne_target]
  have hfilled := hfilling.foldl_saturateDart hg hcapacity (fun _ he => he) (g.nodup_leaving _)
  exact ⟨hfilled.flow, hfilled.excess⟩

end Preflow

/-! ## Built flow graphs -/

namespace Problem

variable {p : Problem K} {c : Checked p.network} {g : FlowGraph K}

/-- What the arcs of a terminal without a capacity allow together is finite. -/
structure Bounded (p : Problem K) : Prop where
  outCapacity : ∀ ids, p.sources = .list ids → ∀ v : Fin p.network.order, v.val ∈ ids →
    isFinite (p.network.outCapacity v) = true
  inCapacities : ∀ ids, p.targets = .list ids → ∀ v : Fin p.network.order, v.val ∈ ids →
    isFinite p.network.inCapacities[v] = true

theorem isFinite_located_iff {net : Network K} {own : Fin net.order → K} {terminals : Terminals K}
    {located : List (Fin net.order × K)} (h : locateAll net own terminals = .ok located) :
    (∀ t ∈ located, isFinite t.2 = true) ↔
      ∀ ids, terminals = .list ids →
        ∀ v : Fin net.order, v.val ∈ ids → isFinite (own v) = true := by
  constructor
  · rintro hall ids rfl v hv
    exact hall (v, own v) ((mem_iff_of_locateAll h v (own v)).mpr ⟨hv, rfl⟩)
  · rintro hlist ⟨v, most⟩ ht
    have hgives := (mem_iff_of_locateAll h v most).mp ht
    cases terminals with
    | list ids =>
        obtain ⟨hv, rfl⟩ := hgives
        exact hlist ids rfl v hv
    | map entries =>
        obtain ⟨entry, -, heq⟩ := (exists_of_forall₂ (forall₂_of_mapM h)).2 _ ht
        obtain ⟨⟨-, hfinite⟩, rfl⟩ := locateEntry_eq_ok_iff.mp heq
        exact hfinite

theorem located_ne_nil {net : Network K} {own : Fin net.order → K} {terminals : Terminals K}
    {located : List (Fin net.order × K)} (h : locateAll net own terminals = .ok located)
    (hempty : terminals.isEmpty = false) : located ≠ [] := by
  have hcount : terminals.count = located.length := by
    cases terminals with
    | list ids => exact (forall₂_of_mapM h).length_eq
    | map entries => exact (forall₂_of_mapM h).length_eq
  rintro rfl
  simp [Terminals.isEmpty, hcount] at hempty

namespace Role

omit [Quantity K] in
theorem isTerminalArc_iff (i : Fin (p.assemble c).arcCount) :
    (p.assemble c).IsTerminalArc i ↔
      (∃ j, ofArc c i = supply j) ∨ ∃ j, ofArc c i = demand j := by
  have hends : (p.assemble c).IsTerminalArc i ↔
      (ofArc c i).link.tail = p.superSource ∨ (ofArc c i).link.tail = p.superTarget := by
    rw [← getElem_arcs]
    rfl
  rw [hends]
  cases ofArc c i with
  | carry a => simp [link, exit_ne_superSource, exit_ne_superTarget]
  | throttle k => simp [link, inner_ne_superSource, inner_ne_superTarget]
  | supply j => simp [link]
  | demand j => simp [link]

omit [Quantity K] in
/-- What is true of the capacities of all terminals is true of their arcs, and conversely. -/
theorem forall_isTerminalArc_iff {P : K → Prop} :
    (∀ i, (p.assemble c).IsTerminalArc i → P (p.assemble c).arcs[i].capacity) ↔
      (∀ s ∈ c.sources, P s.2) ∧ ∀ t ∈ c.targets, P t.2 := by
  constructor
  · intro h
    have hrole : ∀ r : Role c, (∃ j, r = supply j) ∨ (∃ j, r = demand j) → P r.link.capacity := by
      intro r hr
      obtain ⟨i, rfl⟩ := (ofArc c).surjective r
      rw [← getElem_arcs]
      exact h i ((isTerminalArc_iff i).mpr hr)
    refine ⟨fun s hs => ?_, fun t ht => ?_⟩
    · obtain ⟨j, hj, rfl⟩ := List.getElem_of_mem hs
      exact hrole (supply ⟨j, hj⟩) (Or.inl ⟨_, rfl⟩)
    · obtain ⟨j, hj, rfl⟩ := List.getElem_of_mem ht
      exact hrole (demand ⟨j, hj⟩) (Or.inr ⟨_, rfl⟩)
  · rintro ⟨hsources, htargets⟩ i hi
    rw [getElem_arcs]
    rcases (isTerminalArc_iff i).mp hi with ⟨j, hj⟩ | ⟨j, hj⟩
    · rw [hj]
      exact hsources _ (List.getElem_mem j.isLt)
    · rw [hj]
      exact htargets _ (List.getElem_mem j.isLt)

omit [Quantity K] in
theorem exists_supply_of_tail {i : Fin (p.assemble c).arcCount}
    (h : (p.assemble c).arcs[i].tail = (p.assemble c).source) : ∃ j, ofArc c i = supply j := by
  rcases (isTerminalArc_iff i).mp (Or.inl h) with hj | ⟨j, hj⟩
  · exact hj
  · rw [getElem_arcs, hj] at h
    exact absurd h.symm (superSource_ne_superTarget p)

end Role

theorem fanned_assemble (h : p.Accepted c) : (p.assemble c).Fanned := by
  refine ⟨fun i htail => ?_, fun i k hi hk heq => ?_⟩
  · obtain ⟨j, hj⟩ := Role.exists_supply_of_tail htail
    rw [Role.getElem_arcs, hj]
    exact inner_ne_superSource _
  · obtain ⟨j, hj⟩ := Role.exists_supply_of_tail hi
    obtain ⟨l, hl⟩ := Role.exists_supply_of_tail hk
    rw [Role.getElem_arcs, Role.getElem_arcs, hj, hl] at heq
    have hnode : (c.sources.get j).1 = (c.sources.get l).1 := inner_injective heq
    have hindex := List.inj_on_of_nodup_map h.sources_nodup (List.getElem_mem j.isLt)
      (List.getElem_mem l.isLt) hnode
    have hlist : c.sources.Nodup := h.sources_nodup.of_map _
    obtain rfl : j = l := Fin.ext ((List.Nodup.getElem_inj_iff hlist).mp hindex)
    exact (Role.ofArc c).injective (hj.trans hl.symm)

omit [Quantity K] in
theorem leaving_target_ne_nil (h : c.targets ≠ []) :
    (p.assemble c).leaving (p.assemble c).target ≠ [] := by
  obtain ⟨t, ht⟩ := List.exists_mem_of_ne_nil _ h
  obtain ⟨j, hj, -⟩ := List.getElem_of_mem ht
  obtain ⟨i, hi⟩ := (Role.ofArc c).surjective (.demand ⟨j, hj⟩)
  have htail : (p.assemble c).arcs[i].tail = (p.assemble c).target := by
    rw [Role.getElem_arcs, hi]
    rfl
  have hmem : ⟨(p.assemble c).arcs[i].head, i, false⟩ ∈
      (p.assemble c).leaving (p.assemble c).target :=
    (p.assemble c).mem_leaving_iff.mpr ⟨rfl, htail, rfl⟩
  exact List.ne_nil_of_mem hmem

section Capacities

variable [Rounded K]

theorem isCapacity_total {xs : List K} (h : ∀ a ∈ xs, Quantity.IsCapacity a) :
    Quantity.IsCapacity (Quantity.total xs) := by
  have hfold : ∀ a : K, 0 ≤ a → 0 ≤ xs.foldl (· + ·) a := by
    induction xs with
    | nil => exact fun a ha => ha
    | cons b xs ih =>
        intro a ha
        exact ih (fun c hc => h c (List.mem_cons_of_mem b hc)) (a + b)
          (Rounded.add_nonneg ha (h b List.mem_cons_self))
  exact hfold _ Rounded.zero_le_neg_zero

theorem isCapacity_foldl_add {n : Nat} {as : List (Fin n × K)} {sums : Vector K n}
    (has : ∀ a ∈ as, Quantity.IsCapacity a.2) (hsums : ∀ v : Fin n, Quantity.IsCapacity sums[v])
    (v : Fin n) : Quantity.IsCapacity
      (as.foldl (fun sums a => sums.put a.1 (sums[a.1] + a.2)) sums)[v] := by
  induction as generalizing sums with
  | nil => exact hsums v
  | cons a as ih =>
      refine ih (fun b hb => has b (List.mem_cons_of_mem a hb)) fun u => ?_
      rw [Vector.getElem_put]
      split
      · exact Rounded.add_nonneg (hsums a.1) (has a List.mem_cons_self)
      · exact hsums u

namespace Accepted

omit [Rounded K] in
theorem isCapacity_of_mem_proper (h : p.Accepted c) {v : Fin p.network.order}
    {a : Fin p.network.order × K} (ha : a ∈ p.network.proper v) : Quantity.IsCapacity a.2 :=
  h.arc_isCapacity v a (List.mem_of_mem_filter ha)

theorem isCapacity_outCapacity (h : p.Accepted c) (v : Fin p.network.order) :
    Quantity.IsCapacity (p.network.outCapacity v) := by
  refine isCapacity_total fun a ha => ?_
  obtain ⟨b, hb, rfl⟩ := List.mem_map.mp ha
  exact h.isCapacity_of_mem_proper hb

theorem isCapacity_inCapacities (h : p.Accepted c) (v : Fin p.network.order) :
    Quantity.IsCapacity p.network.inCapacities[v] := by
  refine isCapacity_foldl_add (fun a ha => ?_) (fun u => ?_) v
  · obtain ⟨u, -, hu⟩ := List.mem_flatMap.mp ha
    exact h.isCapacity_of_mem_proper hu
  · rw [Vector.getElem_fin, Vector.getElem_replicate]
    exact Rounded.le_refl Rounded.isFinite_zero

end Accepted

/-- No arc of a terminal has a negative capacity, and all of them have finite ones if and only if
what the arcs of each terminal without a capacity allow together is finite. Then what is on the
arcs of the terminals is finite at first and once the super-source is saturated, no node but the
super-source is owed or owes more than that, and nothing is delivered yet. -/
theorem finite_terminals_of_build (hbuild : p.build = .ok g) :
    (∀ i, g.IsTerminalArc i → Quantity.IsCapacity g.arcs[i].capacity) ∧
    (g.BoundedAtTerminals ↔ p.Bounded) ∧
    (p.Bounded → g.FiniteAtTerminals g.initialFlow ∧
      g.FiniteAtTerminals (Preflow.ofFlow g.initialFlow).saturate.flow ∧
      (∀ v, v ≠ g.source →
        isFinite (Preflow.ofFlow g.initialFlow).saturate.excess[v] = true) ∧
      g.delivered g.initialFlow = 0) := by
  obtain ⟨c, hcheck, rfl⟩ := except_map_eq_ok_iff.mp hbuild
  have haccepted := accepted_of_check hcheck
  have hfinite : (p.assemble c).BoundedAtTerminals ↔ p.Bounded := by
    refine Role.forall_isTerminalArc_iff (P := fun a => isFinite a = true).trans ?_
    rw [isFinite_located_iff haccepted.sources, isFinite_located_iff haccepted.targets]
    exact ⟨fun h => ⟨h.1, h.2⟩, fun h => ⟨h.outCapacity, h.inCapacities⟩⟩
  refine ⟨Role.forall_isTerminalArc_iff.mpr ⟨fun s hs => ?_, fun t ht => ?_⟩, hfinite,
    fun hbounded => ?_⟩
  · exact isCapacity_of_locateAll haccepted.sources hs (haccepted.isCapacity_outCapacity s.1)
  · exact isCapacity_of_locateAll haccepted.targets ht (haccepted.isCapacity_inCapacities t.1)
  · have hcapacity := hfinite.mpr hbounded
    obtain ⟨hflow, hexcess⟩ :=
      Preflow.finite_saturate_initialFlow (fanned_assemble haccepted) hcapacity
    have htargets := located_ne_nil haccepted.targets (not_isEmpty_of_check hcheck).2
    exact ⟨FlowGraph.finiteAtTerminals_initialFlow hcapacity, hflow, hexcess,
      FlowGraph.delivered_initialFlow_of_bounded hcapacity (leaving_target_ne_nil htargets)⟩

end Capacities

/-- A diamond with a tenth on each arc, between terminals that are limited by their arcs only. -/
def diamond : Problem Float where
  network := ⟨4, #[#[(1, 0.1), (2, 0.1)], #[(3, 0.1)], #[(3, 0.1)], #[]], by decide +kernel⟩
  limits := Vector.replicate _ none
  sources := .list [0]
  targets := .list [3]

theorem bounded_diamond : diamond.Bounded := by
  refine ⟨fun ids hids => ?_, fun ids hids => ?_⟩
  · obtain rfl := Terminals.list.inj hids
    decide +kernel
  · obtain rfl := Terminals.list.inj hids
    decide +kernel

theorem finite_terminals_diamond : ∃ g, diamond.build = .ok g ∧ diamond.Bounded ∧
    (∀ i, g.IsTerminalArc i → Quantity.IsCapacity g.arcs[i].capacity) ∧
    (g.BoundedAtTerminals ↔ diamond.Bounded) ∧
    (diamond.Bounded → g.FiniteAtTerminals g.initialFlow ∧
      g.FiniteAtTerminals (Preflow.ofFlow g.initialFlow).saturate.flow ∧
      (∀ v, v ≠ g.source →
        isFinite (Preflow.ofFlow g.initialFlow).saturate.excess[v] = true) ∧
      g.delivered g.initialFlow = 0) := by
  have hok : diamond.build.isOk = true := by decide +kernel
  cases hbuild : diamond.build with
  | error _ => simp [hbuild, Except.isOk, Except.toBool] at hok
  | ok g => exact ⟨g, rfl, bounded_diamond, finite_terminals_of_build hbuild⟩

/-- One arc without limit between two terminals without capacities. -/
def limitless : Problem Float where
  network := ⟨1, #[#[(1, 1 / 0)], #[]], by decide +kernel⟩
  limits := Vector.replicate _ none
  sources := .list [0]
  targets := .list [1]

/-- Whether some arc of the super-source is without limit, and what is delivered at first is no
finite quantity. -/
def LimitlessAtFirst (g : FlowGraph Float) : Prop :=
  (∃ i : Fin g.arcCount, g.arcs[i].tail = g.source ∧ isFinite g.arcs[i].capacity = false) ∧
    isFinite (g.delivered g.initialFlow) = false

instance (g : FlowGraph Float) : Decidable (LimitlessAtFirst g) :=
  inferInstanceAs (Decidable (_ ∧ _))

theorem build_limitless : (match limitless.build with
    | .ok g => decide (LimitlessAtFirst g)
    | .error _ => false) = true := by
  decide +kernel

/-- Nothing flows yet through the graph of this problem, but what it delivers is not zero. -/
theorem not_finite_limitless : ∃ g, limitless.build = .ok g ∧
    (∃ i, g.IsTerminalArc i ∧ isFinite g.arcs[i].capacity = false) ∧
    isFinite (g.delivered g.initialFlow) = false := by
  have hfirst := build_limitless
  cases hbuild : limitless.build with
  | error _ => simp [hbuild] at hfirst
  | ok g =>
      simp only [hbuild, decide_eq_true_eq] at hfirst
      obtain ⟨⟨i, htail, hcapacity⟩, hdelivered⟩ := hfirst
      exact ⟨g, rfl, ⟨i, Or.inl htail, hcapacity⟩, hdelivered⟩

end Problem

end PushRelabel
