import PushRelabel.Proofs.FlowGraph.Amounts

/-! # What a flow graph reports

Whatever flow the arcs of a built graph have, the flows it reports have one entry for
each place that carries something. Places of a node that was split are found at its
split node, all others at the node itself.
-/

namespace PushRelabel

theorem FlowGraph.flowsFrom_eq_filterMap {K : Type} [Quantity K] (g : FlowGraph K) (flow : g.Flow)
    (tail : Nat) (w : g.Node) :
    g.flowsFrom flow tail w =
      ((List.finRange g.arcCount).filter fun i => g.arcs[i].tail = w).filterMap fun i =>
        if g.arcs[i].head < g.order ∧ (0 : K) < flow[i] then some ⟨tail, g.arcs[i].head, flow[i]⟩
        else none := by
  rw [flowsFrom, leaving_eq, List.filterMap_map]
  rfl

namespace Problem.Role

variable {K : Type} [AddCommGroup K] [LinearOrder K] {p : Problem K} {c : Checked p.network}
  (flow : (p.assemble c).Flow)

omit [LinearOrder K] in
theorem amount_carry {i : Fin (p.assemble c).arcCount} {a : p.network.Place}
    (h : ofArc c i = carry a) : amount flow (carry a) = flow[i] := by
  rw [← h, amount_ofArc]
  apply FlowGraph.carried_of_ne_target
  rw [getElem_arcs, h]
  exact exit_ne_superTarget a.tail

/-- The place that an arc reports, if any. -/
noncomputable def reported? (i : Fin (p.assemble c).arcCount) : Option p.network.Place :=
  match ofArc c i with
  | carry a => if 0 < flow[i] then some a else none
  | _ => none

theorem reported?_of_carry {i : Fin (p.assemble c).arcCount} {a : p.network.Place}
    (h : ofArc c i = carry a) : reported? flow i = if 0 < flow[i] then some a else none := by
  rw [reported?, h]

theorem reported?_of_not_carry {i : Fin (p.assemble c).arcCount}
    (h : ∀ a, ofArc c i ≠ carry a) : reported? flow i = none := by
  unfold reported?
  split
  next a ha => exact absurd ha (h a)
  next => rfl

theorem reported?_eq_some_iff {i : Fin (p.assemble c).arcCount} {a : p.network.Place} :
    reported? flow i = some a ↔ ofArc c i = carry a ∧ 0 < amount flow (carry a) := by
  constructor
  · intro h
    by_cases hcarry : ∃ b, ofArc c i = carry b
    · obtain ⟨b, hb⟩ := hcarry
      rw [reported?_of_carry flow hb] at h
      obtain ⟨hpos, hab⟩ := Option.ite_none_right_eq_some.mp h
      obtain rfl := Option.some.inj hab
      exact ⟨hb, (amount_carry flow hb).symm ▸ hpos⟩
    · rw [reported?_of_not_carry flow (not_exists.mp hcarry)] at h
      exact nomatch h
  · rintro ⟨hi, hpos⟩
    rw [amount_carry flow hi] at hpos
    rw [reported?_of_carry flow hi, if_pos hpos]

/-- The places that the arcs leaving a node of the flow graph report. -/
noncomputable def reportedFrom (w : p.Node) : List p.network.Place :=
  ((List.finRange (p.assemble c).arcCount).filter
    fun i => (p.assemble c).arcs[i].tail = w).filterMap (reported? flow)

theorem mem_reportedFrom_iff {w : p.Node} {a : p.network.Place} :
    a ∈ reportedFrom flow w ↔ p.exit a.tail = w ∧ 0 < amount flow (carry a) := by
  simp only [reportedFrom, List.mem_filterMap, List.mem_filter, List.mem_finRange, true_and,
    decide_eq_true_eq, reported?_eq_some_iff]
  constructor
  · rintro ⟨i, htail, hi, hpos⟩
    rw [getElem_arcs, hi] at htail
    exact ⟨htail, hpos⟩
  · rintro ⟨hexit, hpos⟩
    obtain ⟨i, hi⟩ := (ofArc c).surjective (carry a)
    refine ⟨i, ?_, hi, hpos⟩
    rw [getElem_arcs, hi]
    exact hexit

theorem nodup_reportedFrom (w : p.Node) : (reportedFrom flow w).Nodup := by
  refine List.Nodup.filterMap (fun i j a hi hj => ?_) ((List.nodup_finRange _).filter _)
  have hri := ((reported?_eq_some_iff flow).mp hi).1
  have hrj := ((reported?_eq_some_iff flow).mp hj).1
  exact (ofArc c).injective (hri.trans hrj.symm)

/-- The entry of a place in the report. -/
noncomputable def entry (a : p.network.Place) : ArcFlow K :=
  ⟨a.tail, a.head, amount flow (carry a)⟩

theorem flowsFrom_eq {v : Fin p.network.order} {w : p.Node} (hsource : w ≠ p.superSource)
    (htarget : w ≠ p.superTarget) (htail : ∀ u, p.exit u = w → u = v) :
    (p.assemble c).flowsFrom flow v w = (reportedFrom flow w).map (entry flow) := by
  refine (FlowGraph.flowsFrom_eq_filterMap _ flow v w).trans ?_
  rw [reportedFrom, List.map_filterMap]
  apply List.filterMap_congr
  intro i hi
  have hw : (ofArc c i).link.tail = w := by
    rw [← getElem_arcs]
    exact of_decide_eq_true (List.mem_filter.mp hi).2
  rw [getElem_arcs]
  -- of the arcs with this tail only those for places lead to nodes of the network
  cases hr : ofArc c i with
  | carry a =>
      rw [hr] at hw
      rw [reported?_of_carry flow hr]
      have hhead : (link (carry a : Role c)).head.val < p.network.order := a.head.isLt
      obtain rfl := htail a.tail hw
      by_cases hpos : 0 < flow[i]
      · rw [if_pos ⟨hhead, hpos⟩, if_pos hpos, Option.map_some, entry, amount_carry flow hr]
        rfl
      · rw [if_neg fun h => hpos h.2, if_neg hpos, Option.map_none]
  | throttle k =>
      rw [reported?_of_not_carry flow fun a ha => nomatch hr.symm.trans ha]
      have hhead : ¬ (link (throttle k : Role c)).head.val < p.network.order := by
        simp only [link, splitNode]
        omega
      exact if_neg fun h => hhead h.1
  | supply j =>
      rw [hr] at hw
      exact absurd hw.symm hsource
  | demand j =>
      rw [hr] at hw
      exact absurd hw.symm htarget

/-- All places that a flow reports, in the order of the report. -/
noncomputable def reportedPlaces : List p.network.Place :=
  ((List.finRange p.network.order).flatMap fun v => reportedFrom flow (p.inner v)) ++
    (List.finRange p.splits.size).flatMap fun k => reportedFrom flow (p.splitNode k)

theorem mem_reportedPlaces_iff {a : p.network.Place} :
    a ∈ reportedPlaces flow ↔ 0 < amount flow (carry a) := by
  simp only [reportedPlaces, List.mem_append, List.mem_flatMap, List.mem_finRange, true_and,
    mem_reportedFrom_iff]
  constructor
  · rintro (⟨v, -, hpos⟩ | ⟨k, -, hpos⟩)
    · exact hpos
    · exact hpos
  · intro hpos
    rcases exit_cases a.tail with ⟨-, hexit⟩ | ⟨k, -, hexit⟩
    · exact Or.inl ⟨a.tail, hexit, hpos⟩
    · exact Or.inr ⟨k, hexit, hpos⟩

theorem nodup_reportedPlaces : (reportedPlaces flow).Nodup := by
  refine List.nodup_append.mpr ⟨?_, ?_, fun a ha b hb heq => ?_⟩
  · refine List.nodup_flatMap.mpr ⟨fun v _ => nodup_reportedFrom flow _, ?_⟩
    refine (List.nodup_finRange _).imp fun hne a ha ha' => hne ?_
    have hu := ((mem_reportedFrom_iff flow).mp ha).1
    have hv := ((mem_reportedFrom_iff flow).mp ha').1
    exact inner_injective (hu.symm.trans hv)
  · refine List.nodup_flatMap.mpr ⟨fun k _ => nodup_reportedFrom flow _, ?_⟩
    refine (List.nodup_finRange _).imp fun hne a ha ha' => hne ?_
    have hj := ((mem_reportedFrom_iff flow).mp ha).1
    have hk := ((mem_reportedFrom_iff flow).mp ha').1
    exact splitNode_injective (hj.symm.trans hk)
  · obtain rfl := heq
    obtain ⟨v, -, hv⟩ := List.mem_flatMap.mp ha
    obtain ⟨k, -, hk⟩ := List.mem_flatMap.mp hb
    have hinner := ((mem_reportedFrom_iff flow).mp hv).1
    have hsplit := ((mem_reportedFrom_iff flow).mp hk).1
    exact inner_ne_splitNode v k (hinner.symm.trans hsplit)

theorem flows_eq : (p.assemble c).flows flow = (reportedPlaces flow).map (entry flow) := by
  unfold FlowGraph.flows reportedPlaces
  rw [List.map_append, List.map_flatMap, List.map_flatMap]
  congr 1
  · apply List.flatMap_congr
    intro v _
    exact flowsFrom_eq flow (inner_ne_superSource v) (inner_ne_superTarget v) fun u hu =>
      ((exit_eq_inner_iff u v).mp hu).1
  · apply List.flatMap_congr
    intro k _
    exact flowsFrom_eq flow (splitNode_ne_superSource k) (splitNode_ne_superTarget k) fun u hu =>
      (exit_eq_splitNode_iff u k).mp hu

theorem reports_flows :
    p.Reports (fun a => amount flow (carry a)) ((p.assemble c).flows flow) :=
  ⟨reportedPlaces flow, nodup_reportedPlaces flow, fun _ => mem_reportedPlaces_iff flow,
    flows_eq flow⟩

end Problem.Role

end PushRelabel
