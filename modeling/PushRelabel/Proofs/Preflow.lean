import PushRelabel.Preflow
import PushRelabel.Proofs.Flow.Labels

/-! # Balanced preflows

A preflow is balanced, relative to one from which it was reached, if its flow fits,
excess changed as much as what the nodes have taken in, and only one node has given
more than it got. Sending along a residual dart keeps a preflow balanced. It leaves
the arcs and the excess of a node alone that is at neither end of the dart.
-/

namespace PushRelabel

variable {K : Type}

namespace Preflow

/-- Neither the flow on the arcs of a node nor its excess has changed. -/
structure LeavesAlone {g : FlowGraph K} (start : Preflow g) (w : g.Node) (p : Preflow g) :
    Prop where
  flow_eq : ∀ i : Fin g.arcCount, g.arcs[i].tail = w ∨ g.arcs[i].head = w →
    p.flow[i] = start.flow[i]
  excess_eq : p.excess[w] = start.excess[w]

theorem leavesAlone_refl {g : FlowGraph K} (p : Preflow g) (w : g.Node) : p.LeavesAlone w p :=
  ⟨fun _ _ => rfl, rfl⟩

end Preflow

section Sending

variable [Quantity K] {g : FlowGraph K}

/-- A dart that ends at two other nodes is none of the arcs of a node. -/
theorem FlowGraph.getElem_push_of_ne (flow : g.Flow) {v w : g.Node} {d : g.DartOf}
    (hd : d ∈ g.darts v) (hv : v ≠ w) (hother : d.other ≠ w) (a : K) {i : Fin g.arcCount}
    (hi : g.arcs[i].tail = w ∨ g.arcs[i].head = w) : (g.push flow d a)[i] = flow[i] := by
  have hne : i ≠ d.arc := by
    rintro rfl
    rcases g.mem_darts_iff.mp hd with ⟨-, htail, hhead⟩ | ⟨-, hhead, htail⟩
    · exact hi.elim (fun h => hv (htail.symm.trans h)) fun h => hother (hhead.symm.trans h)
    · exact hi.elim (fun h => hother (htail.symm.trans h)) fun h => hv (hhead.symm.trans h)
  rw [push, Vector.getElem_put_of_ne _ hne]

namespace Preflow

theorem excess_send_of_ne (p : Preflow g) {v w : g.Node} (d : g.DartOf) (a : K) (hv : w ≠ v)
    (hother : w ≠ d.other) : (p.send v d a).excess[w] = p.excess[w] := by
  rw [send, Vector.getElem_put_of_ne _ hother, Vector.getElem_put_of_ne _ hv]

theorem LeavesAlone.send {start p : Preflow g} {w : g.Node} (h : start.LeavesAlone w p)
    {v : g.Node} {d : g.DartOf} (hd : d ∈ g.darts v) (hv : v ≠ w) (hother : d.other ≠ w) (a : K) :
    start.LeavesAlone w (p.send v d a) := by
  refine ⟨fun i hi => ?_, ?_⟩
  · rw [flow_send, FlowGraph.getElem_push_of_ne p.flow hd hv hother a hi]
    exact h.flow_eq i hi
  · rw [excess_send_of_ne p d a hv.symm hother.symm]
    exact h.excess_eq

end Preflow

end Sending

variable [AddCommGroup K] [LinearOrder K]

namespace Preflow

variable {g : FlowGraph K}

structure Balanced (start : Preflow g) (giver : g.Node) (p : Preflow g) : Prop where
  fits : g.Fits p.flow
  excess_sub : ∀ v : g.Node, p.excess[v] - g.netInflow p.flow v =
    start.excess[v] - g.netInflow start.flow v
  excess_nonneg : ∀ v : g.Node, v ≠ giver → 0 ≤ p.excess[v]

theorem excess_send (p : Preflow g) (v : g.Node) (d : g.DartOf) (a : K) (w : g.Node) :
    (p.send v d a).excess[w] =
      p.excess[w] + (if w = d.other then a else 0) - if w = v then a else 0 := by
  unfold send
  rw [Vector.getElem_put, Vector.getElem_put, Vector.getElem_put]
  by_cases hother : w = d.other
  · subst hother
    by_cases hv : d.other = v <;> simp [hv]
  · rw [if_neg hother, if_neg hother, add_zero]
    by_cases hv : w = v <;> simp [hv]

end Preflow

variable [IsOrderedAddMonoid K]

namespace FlowGraph

variable {g : FlowGraph K}

/-- Sending no more than a dart can take keeps every flow within its bounds. -/
theorem Fits.push {flow : g.Flow} (hfits : g.Fits flow) {d : g.DartOf} {a : K} (ha : 0 ≤ a)
    (hresidual : a ≤ g.residual flow d) : g.Fits (g.push flow d a) := by
  intro i
  obtain ⟨hnonneg, hle⟩ := hfits i
  by_cases hi : i = d.arc
  · subst hi
    rw [getElem_push_self]
    cases hr : d.reversed with
    | true =>
        rw [residual_of_reversed hr] at hresidual
        rw [if_pos rfl, ← sub_eq_add_neg]
        exact ⟨sub_nonneg.mpr hresidual, (sub_le_self _ ha).trans hle⟩
    | false =>
        rw [residual_of_forward hr] at hresidual
        rw [if_neg Bool.false_ne_true]
        exact ⟨add_nonneg hnonneg ha, le_sub_iff_add_le'.mp hresidual⟩
  · rw [getElem_push, if_neg hi, add_zero]
    exact ⟨hnonneg, hle⟩

end FlowGraph

namespace Preflow

variable {g : FlowGraph K} {start p : Preflow g} {giver : g.Node}

omit [IsOrderedAddMonoid K] in
theorem Balanced.congr (h : start.Balanced giver p) {q : Preflow g} (hflow : q.flow = p.flow)
    (hexcess : q.excess = p.excess) : start.Balanced giver q := by
  refine ⟨?_, ?_, ?_⟩
  · rw [hflow]
    exact h.fits
  · rw [hflow, hexcess]
    exact h.excess_sub
  · rw [hexcess]
    exact h.excess_nonneg

theorem Balanced.send (h : start.Balanced giver p) {v : g.Node} {d : g.DartOf}
    (hd : d ∈ g.darts v) {a : K} (ha : 0 ≤ a) (hresidual : a ≤ g.residual p.flow d)
    (hexcess : v ≠ giver → a ≤ p.excess[v]) : start.Balanced giver (p.send v d a) := by
  refine ⟨h.fits.push ha hresidual, fun w => ?_, fun w hw => ?_⟩
  · rw [excess_send, flow_send, FlowGraph.netInflow_push p.flow hd, ← h.excess_sub]
    abel
  · rw [excess_send]
    have hnonneg := h.excess_nonneg w hw
    have hreceived : (0 : K) ≤ if w = d.other then a else 0 := by
      split
      · exact ha
      · exact le_rfl
    by_cases hv : w = v
    · subst hv
      rw [if_pos rfl, add_sub_right_comm]
      exact add_nonneg (sub_nonneg.mpr (hexcess hw)) hreceived
    · rw [if_neg hv, sub_zero]
      exact add_nonneg hnonneg hreceived

omit [IsOrderedAddMonoid K] in
/-- A preflow that fits, with no debts, is balanced relative to itself. -/
theorem balanced_refl (hfits : g.Fits p.flow)
    (hexcess : ∀ v : g.Node, v ≠ giver → 0 ≤ p.excess[v]) :
    p.Balanced giver p :=
  ⟨hfits, fun _ => rfl, hexcess⟩

/-- What holds after some darts of the super-source were saturated. -/
structure Saturating (start p : Preflow g) : Prop where
  balanced : start.Balanced g.source p
  unchanged : ∀ i : Fin g.arcCount, g.arcs[i].tail ≠ g.source → p.flow[i] = start.flow[i]

theorem Saturating.saturateDart (h : start.Saturating p) {d : g.DartOf}
    (hd : d ∈ g.leaving g.source) : start.Saturating (p.saturateDart d) := by
  unfold Preflow.saturateDart
  dsimp only
  split
  next hpos =>
    refine ⟨h.balanced.send (List.mem_append_left _ hd) hpos.le le_rfl fun hne => absurd rfl hne,
      fun i hi => ?_⟩
    -- an arc with another tail is not the one that is saturated
    have hne : i ≠ d.arc := by
      rintro rfl
      exact hi (g.mem_leaving_iff.mp hd).2.1
    rw [flow_send, FlowGraph.getElem_push, if_neg hne, add_zero]
    exact h.unchanged i hi
  next => exact h

theorem Saturating.foldl_saturateDart (h : start.Saturating p) {ds : List g.DartOf}
    (hds : ∀ d ∈ ds, d ∈ g.leaving g.source) :
    start.Saturating (ds.foldl Preflow.saturateDart p) := by
  induction ds generalizing p with
  | nil => exact h
  | cons d ds ih =>
      exact ih (h.saturateDart (hds d List.mem_cons_self))
        fun e he => hds e (List.mem_cons_of_mem d he)

theorem residual_saturateDart_le (p : Preflow g) {d e : g.DartOf}
    (hd : d ∈ g.leaving g.source) (he : e ∈ g.leaving g.source) :
    g.residual (p.saturateDart d).flow e ≤ g.residual p.flow e := by
  unfold saturateDart
  dsimp only
  split
  next hpos =>
    rw [flow_send, FlowGraph.residual_push]
    have hreversed : e.reversed = d.reversed :=
      (g.mem_leaving_iff.mp he).1.trans (g.mem_leaving_iff.mp hd).1.symm
    rw [if_pos hreversed]
    split
    · exact add_le_of_nonpos_right (neg_nonpos.mpr hpos.le)
    · rw [add_zero]
  next => exact le_rfl

omit [IsOrderedAddMonoid K] in
theorem residual_saturateDart_self (p : Preflow g) (d : g.DartOf) :
    g.residual (p.saturateDart d).flow d ≤ 0 := by
  unfold saturateDart
  dsimp only
  split
  next =>
    rw [flow_send, FlowGraph.residual_push, if_pos rfl, if_pos rfl, add_neg_cancel]
  next hpos => exact not_lt.mp hpos

theorem residual_foldl_saturateDart (p : Preflow g) {ds : List g.DartOf}
    (hds : ∀ d ∈ ds, d ∈ g.leaving g.source) {e : g.DartOf} (he : e ∈ g.leaving g.source)
    (h : e ∈ ds ∨ g.residual p.flow e ≤ 0) :
    g.residual (ds.foldl saturateDart p).flow e ≤ 0 := by
  induction ds generalizing p with
  | nil => exact h.resolve_left List.not_mem_nil
  | cons d ds ih =>
      refine ih _ (fun f hf => hds f (List.mem_cons_of_mem d hf)) ?_
      rcases h with hmem | hle
      · rcases List.mem_cons.mp hmem with rfl | hmem
        · exact Or.inr (residual_saturateDart_self p e)
        · exact Or.inl hmem
      · exact Or.inr ((residual_saturateDart_le p (hds d List.mem_cons_self) he).trans hle)

/-- The flow of a preflow, with no excess anywhere. -/
def cleared (p : Preflow g) : Preflow g := { p with excess := Vector.replicate g.nodeCount 0 }

omit [LinearOrder K] [IsOrderedAddMonoid K] in
theorem excess_cleared (p : Preflow g) (v : g.Node) : p.cleared.excess[v] = 0 := by
  simp [cleared]

/-- Saturating the arcs of the super-source changes the flow on no other arc. -/
theorem saturating_saturate (hfits : g.Fits p.flow) : p.cleared.Saturating p.saturate := by
  have hstart : p.cleared.Saturating p.cleared :=
    ⟨balanced_refl hfits fun v _ => (excess_cleared p v).ge, fun _ _ => rfl⟩
  exact hstart.foldl_saturateDart fun _ hd => hd

theorem residual_saturate {d : g.DartOf} (hd : d ∈ g.leaving g.source) :
    g.residual p.saturate.flow d ≤ 0 :=
  residual_foldl_saturateDart _ (fun _ he => he) hd (Or.inl hd)

end Preflow

end PushRelabel
