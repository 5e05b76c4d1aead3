import PushRelabel.TwoPass
import PushRelabel.Proofs.Discharger

/-! # Maximum flows in two passes

After the first pass some label is unused. The nodes above it are the source side of a
cut that is saturated, and no excess is stranded below it, so as much is delivered as
any flow can deliver. The second pass leaves the arcs of the super-target alone. After
it nothing enters the nodes above an unused label, so no excess is stranded there.
-/

namespace PushRelabel

/-- What is delivered depends on the arcs of the super-target only. -/
theorem FlowGraph.delivered_congr {K : Type} [Quantity K] {g : FlowGraph K} {flow flow' : g.Flow}
    (h : ∀ i : Fin g.arcCount, g.arcs[i].tail = g.target → flow'[i] = flow[i]) :
    g.delivered flow' = g.delivered flow := by
  unfold delivered
  congr 1
  refine List.map_congr_left fun d hd => ?_
  rw [h d.arc (g.mem_leaving_iff.mp hd).2.1]

namespace TwoPass

section Passes

variable {K : Type} [Quantity K] {g : FlowGraph K} {threshold fuel : Nat} {u : Unit}

/-- A pass runs the discharger to its end, and then only records what it has done. -/
theorem pass_eq_ok {source sink : g.Node} {event : Discharger g → Event K} {d e : Discharger g}
    (h : (do Discharger.run threshold fuel source sink; record event :
      EStateM Halt (Discharger g) Unit) d = .ok u e) :
    ∃ r journal, Discharger.run threshold fuel source sink d = .ok () r ∧
      e = r.resume r.pass.toPreflow journal := by
  obtain ⟨_, r, hrun, hrecord⟩ := bind_eq_ok_iff.mp h
  obtain rfl := modify_eq_ok_iff.mp hrecord
  exact ⟨r, _, hrun, rfl⟩

/-- A run makes its two passes with one discharger, and returns the preflow at their end. -/
theorem passes_of_run {settings : Settings} {s t : TwoPass g} (h : run settings fuel s = .ok u t) :
    ∃ d e,
      firstPass (Pass.threshold g settings.frequency) fuel
        (.start settings s.preflow.saturate s.journal) = .ok () d ∧
      secondPass (Pass.threshold g settings.frequency) fuel d = .ok () e ∧
      t.preflow = e.pass.toPreflow := by
  unfold run discharging at h
  rw [modify_bind] at h
  obtain ⟨_, s₂, hpasses, h⟩ := bind_eq_ok_iff.mp h
  obtain rfl := modify_eq_ok_iff.mp h
  obtain ⟨e, hboth, rfl⟩ := onPart_eq_ok_iff.mp hpasses
  obtain ⟨_, d, hfirst, hsecond⟩ := bind_eq_ok_iff.mp hboth
  exact ⟨d, e, hfirst, hsecond, rfl⟩

end Passes

end TwoPass

variable {K : Type} [AddCommGroup K] [LinearOrder K] [IsOrderedAddMonoid K] {g : FlowGraph K}
  {s p q : Preflow g} {giver : g.Node}

namespace FlowGraph

variable {i : Fin g.arcCount}

omit [IsOrderedAddMonoid K]

theorem Proper.upstream_ne_target (hproper : g.Proper) : g.upstream i ≠ g.target := by
  unfold upstream
  split
  · exact hproper.head_ne_target i
  next hne => exact hne

theorem Proper.downstream_ne_source (hproper : g.Proper) : g.downstream i ≠ g.source := by
  unfold downstream
  split
  · exact (source_ne_target g).symm
  · exact hproper.head_ne_source i

theorem Proper.upstream_eq_source_iff (hproper : g.Proper) :
    g.upstream i = g.source ↔ g.arcs[i].tail = g.source := by
  unfold upstream
  split
  next htarget =>
    refine iff_of_false (hproper.head_ne_source i) ?_
    rw [htarget]
    exact (source_ne_target g).symm
  next => exact Iff.rfl

end FlowGraph

namespace Preflow

omit [IsOrderedAddMonoid K] in
theorem Balanced.trans (hp : s.Balanced giver p) (hq : p.Balanced giver q) :
    s.Balanced giver q :=
  ⟨hq.fits, fun v => (hq.excess_sub v).trans (hp.excess_sub v), hq.excess_nonneg⟩

omit [IsOrderedAddMonoid K] in
/-- From no excess, excess is what the nodes have taken in. -/
theorem Balanced.excess_eq (h : s.cleared.Balanced giver p) (v : g.Node) :
    p.excess[v] = g.netInflow p.flow v - g.netInflow s.flow v := by
  have hsub : p.excess[v] - g.netInflow p.flow v = 0 - g.netInflow s.flow v := by
    rw [h.excess_sub v, excess_cleared]
    rfl
  rw [sub_eq_iff_eq_add.mp hsub]
  abel

omit [IsOrderedAddMonoid K] in
/-- From no excess, nothing is lost or made up. -/
theorem Balanced.sum_excess_eq_zero (h : s.cleared.Balanced giver p) :
    ∑ v : g.Node, p.excess[v] = 0 := by
  rw [Finset.sum_congr rfl fun v _ => h.excess_eq v, Finset.sum_sub_distrib,
    FlowGraph.sum_netInflow_univ, FlowGraph.sum_netInflow_univ, sub_zero]

/-- The first pass saturates a cut. -/
theorem exists_saturated_cut (hproper : g.Proper) (hflow : g.IsFlow s.flow)
    (h : s.saturate.Settled g.source g.source g.target p) :
    ∃ X : Finset g.Node, g.source ∈ X ∧ g.target ∉ X ∧
      g.delivered p.flow = g.cutCapacity X := by
  obtain ⟨level, hlt, hunused⟩ := h.validLabels.exists_unused
  have htarget := h.validLabels.sink_notMem_above level
  have hbalanced := (saturating_saturate hflow.fits).balanced.trans h.balanced
  refine ⟨g.above p.labels level, h.validLabels.source_mem_above hlt, htarget, ?_⟩
  have hfull : ∀ i : Fin g.arcCount, g.upstream i ∈ g.above p.labels level →
      g.downstream i ∉ g.above p.labels level → g.carried p.flow i = g.arcs[i].capacity := by
    intro i hup hdown
    -- labels do not bind darts of the source, but its arcs were saturated before the pass,
    -- which left them alone
    by_cases hsource : g.upstream i = g.source
    · have htail := hproper.upstream_eq_source_iff.mp hsource
      have hleaving : (⟨g.arcs[i].head, i, false⟩ : g.DartOf) ∈ g.leaving g.source :=
        g.mem_leaving_iff.mpr ⟨rfl, htail, rfl⟩
      have hresidual := residual_saturate (p := s) hleaving
      rw [FlowGraph.residual_of_forward rfl, ← h.leavesAlone.flow_eq i (Or.inl htail),
        sub_nonpos] at hresidual
      rw [FlowGraph.carried_of_ne_target (htail ▸ g.source_ne_target)]
      exact le_antisymm (h.balanced.fits i).2 hresidual
    · exact h.validLabels.carried_eq_capacity h.balanced.fits hunused hsource hup hdown
  have hempty : ∀ i : Fin g.arcCount, g.upstream i ∉ g.above p.labels level →
      g.downstream i ∈ g.above p.labels level → g.carried p.flow i = 0 := fun i hup hdown =>
    h.validLabels.carried_eq_zero h.balanced.fits hunused hproper.downstream_ne_source hup hdown
  rw [← FlowGraph.sum_compl_netInflow_eq hfull hempty, ← FlowGraph.netInflow_target hproper]
  symm
  refine Finset.sum_eq_single_of_mem g.target (Finset.mem_compl.mpr htarget) fun v hv hne => ?_
  rw [Finset.mem_compl, FlowGraph.mem_above] at hv
  have hsource : v ≠ g.source := by
    rintro rfl
    rw [h.validLabels.source_eq] at hv
    exact hv hlt
  -- a node with excess would be retired, and so above the label
  have hexcess : p.excess[v] = 0 := by
    refine le_antisymm (not_lt.mp fun hpos => ?_) (hbalanced.excess_nonneg v hsource)
    rw [h.retired v hsource hne hpos] at hv
    exact hv hlt
  rw [← hflow.conserved v hsource hne, ← sub_eq_zero, ← hbalanced.excess_eq v, hexcess]

/-- The second pass leaves no excess between the super-terminals: nothing is carried
into the nodes above an unused label, and all excess would be there. -/
theorem excess_eq_zero (hproper : g.Proper) (hflow : g.IsFlow s.flow)
    (hp : s.cleared.Balanced g.source p) (h : p.Settled g.source g.target g.source q) {v : g.Node}
    (hsource : v ≠ g.source) (htarget : v ≠ g.target) : q.excess[v] = 0 := by
  obtain ⟨level, hlt, hunused⟩ := h.validLabels.exists_unused
  have hbalanced := hp.trans h.balanced
  have hnonneg := hbalanced.excess_nonneg
  -- the super-target is above the label too, but may have excess and sends nothing out
  set Y := (g.above q.labels level).erase g.target with hY
  have hnotSource : g.source ∉ Y := fun hmem =>
    h.validLabels.sink_notMem_above level (Finset.mem_of_mem_erase hmem)
  have hempty : ∀ i : Fin g.arcCount, g.upstream i ∉ Y → g.downstream i ∈ Y →
      g.carried q.flow i = 0 := by
    intro i hup hdown
    obtain ⟨hne, hmem⟩ := Finset.mem_erase.mp hdown
    refine h.validLabels.carried_eq_zero h.balanced.fits hunused hne (fun habove => hup ?_) hmem
    exact Finset.mem_erase.mpr ⟨hproper.upstream_ne_target, habove⟩
  have hinner : ∀ u ∈ Y, u ≠ g.source ∧ u ≠ g.target := fun u hu =>
    ⟨fun heq => hnotSource (heq ▸ hu), Finset.ne_of_mem_erase hu⟩
  have hsum : ∑ u ∈ Y, q.excess[u] ≤ 0 := by
    have hexcess : ∀ u ∈ Y, q.excess[u] = g.netInflow q.flow u := by
      intro u hu
      obtain ⟨hs, ht⟩ := hinner u hu
      rw [hbalanced.excess_eq, hflow.conserved u hs ht, sub_zero]
    rw [Finset.sum_congr rfl hexcess]
    exact h.balanced.fits.sum_netInflow_nonpos hempty
  by_contra hne
  have hpos : 0 < q.excess[v] := lt_of_le_of_ne (hnonneg v hsource) (Ne.symm hne)
  have hv : v ∈ Y := by
    refine Finset.mem_erase.mpr ⟨htarget, FlowGraph.mem_above.mpr ?_⟩
    rw [h.retired v htarget hsource hpos]
    exact hlt
  have hle : q.excess[v] ≤ ∑ u ∈ Y, q.excess[u] :=
    Finset.single_le_sum (f := fun u : g.Node => q.excess[u])
      (fun u hu => hnonneg u (hinner u hu).1) hv
  exact (hpos.trans_le (hle.trans hsum)).false

/-- What a complete run leaves, relative to the flow from which it started. -/
structure Maximal (p : Preflow g) (base : g.Flow) : Prop where
  isFlow : g.IsFlow p.flow
  saturated : ∃ X : Finset g.Node, g.source ∈ X ∧ g.target ∉ X ∧
    g.delivered p.flow = g.cutCapacity X
  excess_target : p.excess[g.target] = g.delivered p.flow - g.delivered base
  excess_source : p.excess[g.source] = -p.excess[g.target]
  excess_inner : ∀ v : g.Node, v ≠ g.source → v ≠ g.target → p.excess[v] = 0

theorem maximal_of_settled (hproper : g.Proper) (hflow : g.IsFlow s.flow)
    (hfirst : s.saturate.Settled g.source g.source g.target p)
    (hsecond : p.Settled g.source g.target g.source q) : q.Maximal s.flow := by
  have hp := (saturating_saturate hflow.fits).balanced.trans hfirst.balanced
  have hq := hp.trans hsecond.balanced
  have hinner : ∀ v : g.Node, v ≠ g.source → v ≠ g.target → q.excess[v] = 0 :=
    fun v => excess_eq_zero hproper hflow hp hsecond
  obtain ⟨X, hsource, htarget, hcut⟩ := exists_saturated_cut hproper hflow hfirst
  have hdelivered : g.delivered q.flow = g.delivered p.flow :=
    FlowGraph.delivered_congr fun i hi => hsecond.leavesAlone.flow_eq i (Or.inl hi)
  refine ⟨⟨hsecond.balanced.fits, fun v hs ht => ?_⟩,
    ⟨X, hsource, htarget, hdelivered.trans hcut⟩, ?_, ?_, hinner⟩
  · rw [← hflow.conserved v hs ht, ← sub_eq_zero, ← hq.excess_eq v, hinner v hs ht]
  · rw [hq.excess_eq, FlowGraph.netInflow_target hproper, FlowGraph.netInflow_target hproper]
  · have hpair : ∑ v : g.Node, q.excess[v] = q.excess[g.source] + q.excess[g.target] := by
      rw [← Finset.sum_pair (f := fun v : g.Node => q.excess[v]) g.source_ne_target]
      symm
      refine Finset.sum_subset (Finset.subset_univ _) fun v _ hv => ?_
      rw [Finset.mem_insert, Finset.mem_singleton, not_or] at hv
      exact hinner v hv.1 hv.2
    exact eq_neg_of_add_eq_zero_left (hpair.symm.trans hq.sum_excess_eq_zero)

end Preflow

namespace TwoPass

open Discharger

variable {s t : TwoPass g} {u : Unit}

theorem firstPass_eq_ok {threshold fuel : Nat} {d e : Discharger g} (hproper : g.Proper)
    (hfits : g.Fits d.pass.flow) (hexcess : ∀ v : g.Node, v ≠ g.source → 0 ≤ d.pass.excess[v])
    (hidle : d.Idle) (h : firstPass threshold fuel d = .ok u e) :
    d.pass.toPreflow.Settled g.source g.source g.target e.pass.toPreflow ∧ e.Idle := by
  obtain ⟨r, journal, hrun, rfl⟩ := pass_eq_ok h
  obtain ⟨hsettled, hr⟩ :=
    Discharger.settled_of_run hproper g.source_ne_target (Or.inl rfl) hfits hexcess hidle hrun
  rw [preflow_resume]
  exact ⟨hsettled, hr.resume _ _⟩

theorem secondPass_eq_ok {threshold fuel : Nat} {d e : Discharger g} (hproper : g.Proper)
    (hfits : g.Fits d.pass.flow) (hexcess : ∀ v : g.Node, v ≠ g.source → 0 ≤ d.pass.excess[v])
    (hidle : d.Idle) (h : secondPass threshold fuel d = .ok u e) :
    d.pass.toPreflow.Settled g.source g.target g.source e.pass.toPreflow := by
  obtain ⟨r, journal, hrun, rfl⟩ := pass_eq_ok h
  rw [preflow_resume]
  exact (Discharger.settled_of_run hproper g.source_ne_target.symm (Or.inr rfl) hfits hexcess
    hidle hrun).1

/-- A run that ends well turns any flow into a maximum flow. -/
theorem maximal_of_run {settings : Settings} {fuel : Nat} (hproper : g.Proper)
    (hflow : g.IsFlow s.preflow.flow) (h : run settings fuel s = .ok u t) :
    t.preflow.Maximal s.preflow.flow := by
  obtain ⟨d, e, hfirst, hsecond, heq⟩ := passes_of_run h
  have hsaturating := Preflow.saturating_saturate (p := s.preflow) hflow.fits
  have hstart := preflow_start settings s.preflow.saturate s.journal
  obtain ⟨hp, hidle⟩ := firstPass_eq_ok hproper (by rw [hstart]; exact hsaturating.balanced.fits)
    (by rw [hstart]; exact hsaturating.balanced.excess_nonneg) (idle_start _ _ _) hfirst
  have hq := secondPass_eq_ok hproper hp.balanced.fits hp.balanced.excess_nonneg hidle hsecond
  rw [heq]
  exact Preflow.maximal_of_settled hproper hflow (hstart ▸ hp) hq

end TwoPass

end PushRelabel
