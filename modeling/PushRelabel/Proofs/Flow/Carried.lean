import PushRelabel.Proofs.Compressed
import PushRelabel.Proofs.Exact

/-! # What the arcs of a flow graph carry

Arcs of the super-target are read backwards: they carry what is delivered, so their
capacity minus their flow, towards the super-target. With this reading every arc
has an upstream and a downstream end, the initial flow carries nothing, and sending
an amount along a dart moves it from one end of the dart to the other.
-/

namespace PushRelabel.FlowGraph

variable {K : Type}

section Ends

variable (g : FlowGraph K)

/-- The end of an arc at which flow enters it. -/
def upstream (i : Fin g.arcCount) : g.Node :=
  if g.arcs[i].tail = g.target then g.arcs[i].head else g.arcs[i].tail

/-- The end of an arc at which flow leaves it. -/
def downstream (i : Fin g.arcCount) : g.Node :=
  if g.arcs[i].tail = g.target then g.target else g.arcs[i].head

theorem source_ne_target : g.source ≠ g.target := by
  simp [source, target, Fin.ext_iff]

theorem mem_darts_iff {v : g.Node} {d : g.DartOf} :
    d ∈ g.darts v ↔
      (d.reversed = false ∧ g.arcs[d.arc].tail = v ∧ g.arcs[d.arc].head = d.other) ∨
      (d.reversed = true ∧ g.arcs[d.arc].head = v ∧ g.arcs[d.arc].tail = d.other) := by
  rcases d with ⟨other, i, reversed⟩
  rw [darts, List.mem_append, leaving_eq, entering_eq]
  simp only [List.mem_map, List.mem_filter, List.mem_finRange, true_and, decide_eq_true_eq,
    Dart.mk.injEq]
  constructor
  · rintro (⟨j, htail, hhead, rfl, rfl⟩ | ⟨j, hhead, htail, rfl, rfl⟩)
    · exact Or.inl ⟨rfl, htail, hhead⟩
    · exact Or.inr ⟨rfl, hhead, htail⟩
  · rintro (⟨rfl, htail, hhead⟩ | ⟨rfl, hhead, htail⟩)
    · exact Or.inl ⟨i, htail, hhead, rfl, rfl⟩
    · exact Or.inr ⟨i, hhead, htail, rfl, rfl⟩

theorem mem_leaving_iff {v : g.Node} {d : g.DartOf} :
    d ∈ g.leaving v ↔
      d.reversed = false ∧ g.arcs[d.arc].tail = v ∧ g.arcs[d.arc].head = d.other := by
  rcases d with ⟨other, i, reversed⟩
  rw [leaving_eq]
  simp only [List.mem_map, List.mem_filter, List.mem_finRange, true_and, decide_eq_true_eq,
    Dart.mk.injEq]
  constructor
  · rintro ⟨j, htail, hhead, rfl, rfl⟩
    exact ⟨rfl, htail, hhead⟩
  · rintro ⟨rfl, htail, hhead⟩
    exact ⟨i, htail, hhead, rfl, rfl⟩

/-- Each dart of a node is a dart of the node at its other side, seen from there. -/
theorem exists_opposite {v : g.Node} {d : g.DartOf} (hd : d ∈ g.darts v) :
    ∃ e ∈ g.darts d.other, e.other = v ∧ e.arc = d.arc ∧ e.reversed = !d.reversed := by
  rcases (g.mem_darts_iff).mp hd with ⟨hr, htail, hhead⟩ | ⟨hr, hhead, htail⟩
  · exact ⟨⟨v, d.arc, true⟩, (g.mem_darts_iff).mpr (Or.inr ⟨rfl, hhead, htail⟩), rfl, rfl,
      by rw [hr]; rfl⟩
  · exact ⟨⟨v, d.arc, false⟩, (g.mem_darts_iff).mpr (Or.inl ⟨rfl, htail, hhead⟩), rfl, rfl,
      by rw [hr]; rfl⟩

/-- An arc seen from its other end leads back. -/
theorem ends_of_opposite {u v : g.Node} {d e : g.DartOf} (hd : d ∈ g.darts v)
    (he : e ∈ g.darts u) (harc : e.arc = d.arc) (hreversed : e.reversed ≠ d.reversed) :
    u = d.other ∧ e.other = v := by
  rcases (g.mem_darts_iff).mp hd with ⟨hdr, hdv, hdo⟩ | ⟨hdr, hdv, hdo⟩ <;>
    rcases (g.mem_darts_iff).mp he with ⟨her, hev, heo⟩ | ⟨her, hev, heo⟩
  · exact absurd (her.trans hdr.symm) hreversed
  · simp only [harc] at hev heo
    exact ⟨hev.symm.trans hdo, heo.symm.trans hdv⟩
  · simp only [harc] at hev heo
    exact ⟨hev.symm.trans hdo, heo.symm.trans hdv⟩
  · exact absurd (her.trans hdr.symm) hreversed

/-- An arc seen from the same end has the same two nodes. -/
theorem node_eq_of_same {u v : g.Node} {d e : g.DartOf} (hd : d ∈ g.darts v) (he : e ∈ g.darts u)
    (harc : e.arc = d.arc) (hreversed : e.reversed = d.reversed) : u = v := by
  rcases (g.mem_darts_iff).mp hd with ⟨hdr, hdv, -⟩ | ⟨hdr, hdv, -⟩ <;>
    rcases (g.mem_darts_iff).mp he with ⟨her, hev, -⟩ | ⟨her, hev, -⟩ <;>
    simp only [harc] at hev
  · exact hev.symm.trans hdv
  · exact absurd (her.symm.trans hreversed) (by simp [hdr])
  · exact absurd (her.symm.trans hreversed) (by simp [hdr])
  · exact hev.symm.trans hdv

end Ends

theorem reverseResidual_eq_residual [Quantity K] {g : FlowGraph K} {flow : g.Flow}
    {d e : g.DartOf} (harc : e.arc = d.arc) (hreversed : e.reversed = !d.reversed) :
    g.reverseResidual flow e = g.residual flow d := by
  rcases e with ⟨other, i, reversed⟩
  dsimp only at harc hreversed
  subst harc hreversed
  cases hd : d.reversed <;> simp [reverseResidual, residual, hd]

/-- Capacities are not negative, no arc is a loop, and none enters a super-terminal. -/
structure Proper [Quantity K] (g : FlowGraph K) : Prop where
  capacity_nonneg : ∀ i : Fin g.arcCount, 0 ≤ g.arcs[i].capacity
  tail_ne_head : ∀ i : Fin g.arcCount, g.arcs[i].tail ≠ g.arcs[i].head
  head_ne_source : ∀ i : Fin g.arcCount, g.arcs[i].head ≠ g.source
  head_ne_target : ∀ i : Fin g.arcCount, g.arcs[i].head ≠ g.target

section Proper

variable [Quantity K] {g : FlowGraph K} {v : g.Node} {d e : g.DartOf}

theorem Proper.other_ne (hproper : g.Proper) (hd : d ∈ g.darts v) : d.other ≠ v := by
  rintro rfl
  rcases g.mem_darts_iff.mp hd with ⟨-, htail, hhead⟩ | ⟨-, hhead, htail⟩
  · exact hproper.tail_ne_head d.arc (htail.trans hhead.symm)
  · exact hproper.tail_ne_head d.arc (htail.trans hhead.symm)

/-- Without loops a node sees each of its arcs once. -/
theorem Proper.dart_eq (hproper : g.Proper) (hd : d ∈ g.darts v) (he : e ∈ g.darts v)
    (harc : e.arc = d.arc) : e = d := by
  have hsame : e.other = d.other ∧ e.reversed = d.reversed := by
    rcases g.mem_darts_iff.mp hd with ⟨hr, hend, hother⟩ | ⟨hr, hend, hother⟩ <;>
      rcases g.mem_darts_iff.mp he with ⟨hr', hend', hother'⟩ | ⟨hr', hend', hother'⟩ <;>
      simp only [harc] at hend' hother'
    · exact ⟨hother'.symm.trans hother, hr'.trans hr.symm⟩
    · exact absurd (hend.trans hend'.symm) (hproper.tail_ne_head d.arc)
    · exact absurd (hend'.trans hend.symm) (hproper.tail_ne_head d.arc)
    · exact ⟨hother'.symm.trans hother, hr'.trans hr.symm⟩
  rcases d with ⟨other, i, reversed⟩
  rcases e with ⟨other', j, reversed'⟩
  obtain ⟨rfl, rfl⟩ := hsame
  obtain rfl : j = i := harc
  rfl

end Proper

variable [AddCommGroup K] [LinearOrder K] (g : FlowGraph K)

/-- What an arc carries from its upstream to its downstream end. -/
def carried (flow : g.Flow) (i : Fin g.arcCount) : K :=
  if g.arcs[i].tail = g.target then g.arcs[i].capacity - flow[i] else flow[i]

/-- What arrives at a node less what leaves it. -/
def netInflow (flow : g.Flow) (v : g.Node) : K :=
  ∑ i : Fin g.arcCount, ((if g.downstream i = v then g.carried flow i else 0) -
    if g.upstream i = v then g.carried flow i else 0)

/-- Every flow lies between zero and the capacity of its arc. -/
def Fits (flow : g.Flow) : Prop :=
  ∀ i : Fin g.arcCount, 0 ≤ flow[i] ∧ flow[i] ≤ g.arcs[i].capacity

/-- A flow that fits, and that only the super-terminals send out or take in. -/
structure IsFlow (flow : g.Flow) : Prop where
  fits : g.Fits flow
  conserved : ∀ v, v ≠ g.source → v ≠ g.target → g.netInflow flow v = 0

section Sending

variable {g}

theorem carried_initialFlow (i : Fin g.arcCount) : g.carried g.initialFlow i = 0 := by
  simp only [carried, initialFlow, Vector.getElem_fin, Vector.getElem_ofFn]
  split
  · exact sub_self _
  · rfl

theorem netInflow_initialFlow (v : g.Node) : g.netInflow g.initialFlow v = 0 := by
  simp [netInflow, carried_initialFlow]

theorem getElem_push (flow : g.Flow) (d : g.DartOf) (a : K) (i : Fin g.arcCount) :
    (g.push flow d a)[i] = flow[i] + if i = d.arc then (if d.reversed then -a else a) else 0 := by
  rw [push, Vector.getElem_put]
  by_cases hi : i = d.arc
  · rw [if_pos hi, if_pos hi, hi]
  · rw [if_neg hi, if_neg hi, add_zero]

theorem residual_push (flow : g.Flow) (d e : g.DartOf) (a : K) :
    g.residual (g.push flow d a) e =
      g.residual flow e +
        if e.arc = d.arc then (if e.reversed = d.reversed then -a else a) else 0 := by
  simp only [residual, getElem_push]
  by_cases harc : e.arc = d.arc
  · cases e.reversed <;> cases d.reversed <;> simp [harc] <;> abel
  · simp [harc]

theorem residual_of_forward {flow : g.Flow} {d : g.DartOf} (h : d.reversed = false) :
    g.residual flow d = g.arcs[d.arc].capacity - flow[d.arc] := by
  rw [residual, if_neg (by simp [h])]

theorem residual_of_reversed {flow : g.Flow} {d : g.DartOf} (h : d.reversed = true) :
    g.residual flow d = flow[d.arc] := by
  rw [residual, if_pos h]

/-- Both ends of an arc see together what it can carry. -/
theorem residual_add_opposite (flow : g.Flow) {d e : g.DartOf} (harc : e.arc = d.arc)
    (hreversed : e.reversed = !d.reversed) :
    g.residual flow d + g.residual flow e = g.arcs[d.arc].capacity := by
  rcases e with ⟨other, i, reversed⟩
  dsimp only at harc hreversed
  subst harc hreversed
  cases hd : d.reversed <;> simp [residual, hd]

/-- Where one end of an arc sees no less than before, the other one sees no more. -/
theorem residual_le_of_opposite [IsOrderedAddMonoid K] {flow flow' : g.Flow} {d e : g.DartOf}
    (harc : e.arc = d.arc) (hreversed : e.reversed = !d.reversed)
    (hle : g.residual flow e ≤ g.residual flow' e) :
    g.residual flow' d ≤ g.residual flow d := by
  have hbefore := residual_add_opposite flow harc hreversed
  have hafter := residual_add_opposite flow' harc hreversed
  by_contra hlt
  exact (add_lt_add_of_lt_of_le (not_le.mp hlt) hle).ne (hbefore.trans hafter.symm)

theorem Fits.residual_nonneg [IsOrderedAddMonoid K] {flow : g.Flow} (hfits : g.Fits flow)
    (d : g.DartOf) : 0 ≤ g.residual flow d := by
  obtain ⟨hnonneg, hle⟩ := hfits d.arc
  cases hd : d.reversed with
  | true => exact (residual_of_reversed hd).symm ▸ hnonneg
  | false => exact (residual_of_forward hd).symm ▸ sub_nonneg.mpr hle

omit [LinearOrder K] in
theorem carried_of_target {flow : g.Flow} {i : Fin g.arcCount} (h : g.arcs[i].tail = g.target) :
    g.carried flow i = g.arcs[i].capacity - flow[i] := if_pos h

omit [LinearOrder K] in
theorem carried_of_ne_target {flow : g.Flow} {i : Fin g.arcCount}
    (h : g.arcs[i].tail ≠ g.target) : g.carried flow i = flow[i] := if_neg h

theorem getElem_push_self (flow : g.Flow) (d : g.DartOf) (a : K) :
    (g.push flow d a)[d.arc] = flow[d.arc] + if d.reversed then -a else a := by
  rw [getElem_push, if_pos rfl]

theorem carried_push_of_ne (flow : g.Flow) (d : g.DartOf) (a : K) {i : Fin g.arcCount}
    (hi : i ≠ d.arc) : g.carried (g.push flow d a) i = g.carried flow i := by
  simp only [carried, getElem_push, if_neg hi, add_zero]

end Sending

/-- The dart of a node runs along its arc, from the upstream end. -/
structure Along (v : g.Node) (d : g.DartOf) : Prop where
  upstream_eq : g.upstream d.arc = v
  downstream_eq : g.downstream d.arc = d.other
  residual_eq : ∀ flow : g.Flow,
    g.residual flow d = g.arcs[d.arc].capacity - g.carried flow d.arc
  carried_push : ∀ (flow : g.Flow) (a : K),
    g.carried (g.push flow d a) d.arc = g.carried flow d.arc + a

/-- The dart of a node runs against its arc, from the downstream end. -/
structure Against (v : g.Node) (d : g.DartOf) : Prop where
  downstream_eq : g.downstream d.arc = v
  upstream_eq : g.upstream d.arc = d.other
  residual_eq : ∀ flow : g.Flow, g.residual flow d = g.carried flow d.arc
  carried_push : ∀ (flow : g.Flow) (a : K),
    g.carried (g.push flow d a) d.arc = g.carried flow d.arc - a

variable {g}

theorem along_or_against {v : g.Node} {d : g.DartOf} (hd : d ∈ g.darts v) :
    g.Along v d ∨ g.Against v d := by
  rcases g.mem_darts_iff.mp hd with ⟨hr, htail, hhead⟩ | ⟨hr, hhead, htail⟩
  · -- an arc that leaves the super-target carries from its head what its flow lacks
    by_cases htarget : g.arcs[d.arc].tail = g.target
    · right
      constructor
      · rw [downstream, if_pos htarget, ← htail, htarget]
      · rw [upstream, if_pos htarget, hhead]
      · intro flow
        rw [residual_of_forward hr, carried_of_target htarget]
      · intro flow a
        rw [carried_of_target htarget, carried_of_target htarget, getElem_push_self,
          if_neg (by simp [hr]), sub_sub]
    · left
      constructor
      · rw [upstream, if_neg htarget, htail]
      · rw [downstream, if_neg htarget, hhead]
      · intro flow
        rw [residual_of_forward hr, carried_of_ne_target htarget]
      · intro flow a
        rw [carried_of_ne_target htarget, carried_of_ne_target htarget, getElem_push_self,
          if_neg (by simp [hr])]
  · by_cases htarget : g.arcs[d.arc].tail = g.target
    · left
      constructor
      · rw [upstream, if_pos htarget, hhead]
      · rw [downstream, if_pos htarget, ← htail, htarget]
      · intro flow
        rw [residual_of_reversed hr, carried_of_target htarget, sub_sub_cancel]
      · intro flow a
        rw [carried_of_target htarget, carried_of_target htarget, getElem_push_self, if_pos hr]
        abel
    · right
      constructor
      · rw [downstream, if_neg htarget, hhead]
      · rw [upstream, if_neg htarget, htail]
      · intro flow
        rw [residual_of_reversed hr, carried_of_ne_target htarget]
      · intro flow a
        rw [carried_of_ne_target htarget, carried_of_ne_target htarget, getElem_push_self,
          if_pos hr, sub_eq_add_neg]

/-- The upstream end of an arc sees how much more it can carry. -/
theorem exists_dart_upstream (i : Fin g.arcCount) :
    ∃ d ∈ g.darts (g.upstream i), d.other = g.downstream i ∧
      ∀ flow : g.Flow, g.residual flow d = g.arcs[i].capacity - g.carried flow i := by
  by_cases htarget : g.arcs[i].tail = g.target
  · refine ⟨⟨g.target, i, true⟩, g.mem_darts_iff.mpr (Or.inr ⟨rfl, (if_pos htarget).symm, htarget⟩),
      (if_pos htarget).symm, fun flow => ?_⟩
    rw [residual_of_reversed rfl, carried_of_target htarget, sub_sub_cancel]
  · refine ⟨⟨g.arcs[i].head, i, false⟩,
      g.mem_darts_iff.mpr (Or.inl ⟨rfl, (if_neg htarget).symm, rfl⟩),
      (if_neg htarget).symm, fun flow => ?_⟩
    rw [residual_of_forward rfl, carried_of_ne_target htarget]

/-- The downstream end of an arc sees how much of what it carries can be taken back. -/
theorem exists_dart_downstream (i : Fin g.arcCount) :
    ∃ d ∈ g.darts (g.downstream i), d.other = g.upstream i ∧
      ∀ flow : g.Flow, g.residual flow d = g.carried flow i := by
  by_cases htarget : g.arcs[i].tail = g.target
  · refine ⟨⟨g.arcs[i].head, i, false⟩,
      g.mem_darts_iff.mpr (Or.inl ⟨rfl, htarget.trans (if_pos htarget).symm, rfl⟩),
      (if_pos htarget).symm, fun flow => ?_⟩
    rw [residual_of_forward rfl, carried_of_target htarget]
  · refine ⟨⟨g.arcs[i].tail, i, true⟩,
      g.mem_darts_iff.mpr (Or.inr ⟨rfl, (if_neg htarget).symm, rfl⟩),
      (if_neg htarget).symm, fun flow => ?_⟩
    rw [residual_of_reversed rfl, carried_of_ne_target htarget]

/-- Sending an amount along a dart takes it from one end to the other. -/
theorem netInflow_push (flow : g.Flow) {v : g.Node} {d : g.DartOf} (hd : d ∈ g.darts v) (a : K)
    (w : g.Node) :
    g.netInflow (g.push flow d a) w =
      g.netInflow flow w + (if w = d.other then a else 0) - if w = v then a else 0 := by
  have hrest : ∀ i ∈ (Finset.univ.erase d.arc),
      ((if g.downstream i = w then g.carried (g.push flow d a) i else 0) -
        if g.upstream i = w then g.carried (g.push flow d a) i else 0) =
      ((if g.downstream i = w then g.carried flow i else 0) -
        if g.upstream i = w then g.carried flow i else 0) := by
    intro i hi
    rw [carried_push_of_ne flow d a (Finset.ne_of_mem_erase hi)]
  simp only [netInflow]
  rw [← Finset.sum_erase_add _ _ (Finset.mem_univ d.arc),
    ← Finset.sum_erase_add _ (a := d.arc) _ (Finset.mem_univ d.arc), Finset.sum_congr rfl hrest]
  rcases along_or_against hd with h | h
  · rw [h.carried_push, h.upstream_eq, h.downstream_eq]
    simp only [eq_comm (a := w)]
    split <;> split <;> abel
  · rw [h.carried_push, h.upstream_eq, h.downstream_eq]
    simp only [eq_comm (a := w)]
    split <;> split <;> abel

end PushRelabel.FlowGraph
