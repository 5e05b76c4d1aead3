import PushRelabel.FlowGraph.Build
import PushRelabel.Proofs.Feasible

/-! # What an accepted problem satisfies -/

namespace PushRelabel

section Except

variable {ε α β : Type}

theorem except_bind_eq_ok_iff {x : Except ε α} {f : α → Except ε β} {b : β} :
    (x >>= f) = .ok b ↔ ∃ a, x = .ok a ∧ f a = .ok b := by
  cases x with
  | error e => simp [bind, Except.bind]
  | ok a => simp [bind, Except.bind]

theorem except_map_eq_ok_iff {x : Except ε α} {f : α → β} {b : β} :
    x.map f = .ok b ↔ ∃ a, x = .ok a ∧ f a = b := by
  cases x with
  | error e => simp [Except.map]
  | ok a => simp [Except.map]

theorem forall₂_of_mapM {f : α → Except ε β} {as : List α} {bs : List β}
    (h : as.mapM f = .ok bs) : List.Forall₂ (fun a b => f a = .ok b) as bs := by
  induction as generalizing bs with
  | nil =>
      rw [List.mapM_nil] at h
      cases h
      exact .nil
  | cons a as ih =>
      rw [List.mapM_cons] at h
      obtain ⟨c, hc, h⟩ := except_bind_eq_ok_iff.mp h
      obtain ⟨cs, hcs, h⟩ := except_bind_eq_ok_iff.mp h
      cases h
      exact .cons hc (ih hcs)

theorem exists_of_forall₂ {R : α → β → Prop} {as : List α} {bs : List β}
    (h : List.Forall₂ R as bs) : (∀ a ∈ as, ∃ b ∈ bs, R a b) ∧ ∀ b ∈ bs, ∃ a ∈ as, R a b := by
  induction h with
  | nil => simp
  | cons hab _ ih =>
      refine ⟨fun a ha => ?_, fun b hb => ?_⟩
      · rcases List.mem_cons.mp ha with rfl | ha
        · exact ⟨_, List.mem_cons_self, hab⟩
        · obtain ⟨b, hb, hR⟩ := ih.1 a ha
          exact ⟨b, List.mem_cons_of_mem _ hb, hR⟩
      · rcases List.mem_cons.mp hb with rfl | hb
        · exact ⟨_, List.mem_cons_self, hab⟩
        · obtain ⟨a, ha, hR⟩ := ih.2 b hb
          exact ⟨a, List.mem_cons_of_mem _ ha, hR⟩

end Except

namespace Problem

theorem repeated?_eq_none_iff {nodes : List Nat} : repeated? nodes = none ↔ nodes.Nodup := by
  unfold repeated?
  rw [List.min?_eq_none_iff, List.filter_eq_nil_iff, List.nodup_iff_count_le_one]
  constructor
  · intro h a
    by_cases ha : a ∈ nodes
    · have := h a ha
      simpa using this
    · rw [List.count_eq_zero_of_not_mem ha]
      exact Nat.zero_le 1
  · intro h a _
    simpa using h a

variable {K : Type} [Quantity K]

section Terminals

variable {net : Network K} {own : Fin net.order → K} {terminals : Terminals K}
  {located : List (Fin net.order × K)}

omit [Quantity K] in
theorem locate_eq_ok_iff {id : Nat} {v : Fin net.order} :
    (locate net id : Except (InputError K) _) = .ok v ↔ id = v := by
  unfold locate Network.node?
  by_cases hid : id < net.order
  · simp [hid, Fin.ext_iff]
  · rw [dif_neg hid]
    refine iff_of_false (fun h => nomatch h) ?_
    rintro rfl
    exact hid v.isLt

theorem locateEntry_eq_ok_iff {entry : Nat × K} {t : Fin net.order × K} :
    locateEntry net entry = .ok t ↔
      (Quantity.IsCapacity entry.2 ∧ Quantity.isFinite entry.2 = true) ∧
        entry = (t.1.val, t.2) := by
  rcases entry with ⟨id, most⟩
  rcases t with ⟨v, most'⟩
  unfold locateEntry
  split
  next h => simp [except_map_eq_ok_iff, locate_eq_ok_iff, h]
  next h => simp [h]

/-- The nodes found are those of the terminals, each with the most that it may give. -/
theorem mem_iff_of_locateAll (h : locateAll net own terminals = .ok located) (v : Fin net.order)
    (most : K) : (v, most) ∈ located ↔ terminals.Gives (own v) v most := by
  cases terminals with
  | list ids =>
      obtain ⟨hall, hsome⟩ := exists_of_forall₂ (forall₂_of_mapM h)
      simp only [except_map_eq_ok_iff, locate_eq_ok_iff] at hall hsome
      constructor
      · intro hmem
        obtain ⟨id, hid, u, rfl, heq⟩ := hsome _ hmem
        obtain ⟨rfl, rfl⟩ := Prod.mk.inj heq
        exact ⟨hid, rfl⟩
      · rintro ⟨hid, rfl⟩
        obtain ⟨t, ht, u, hu, rfl⟩ := hall v.val hid
        rwa [Fin.ext hu]
  | map entries =>
      obtain ⟨hall, hsome⟩ := exists_of_forall₂ (forall₂_of_mapM h)
      simp only [locateEntry_eq_ok_iff] at hall hsome
      constructor
      · intro hmem
        obtain ⟨entry, hentry, -, rfl⟩ := hsome _ hmem
        exact hentry
      · intro hmem
        obtain ⟨⟨u, most'⟩, ht, -, heq⟩ := hall _ hmem
        obtain ⟨hu, rfl⟩ := Prod.mk.inj heq
        rwa [Fin.ext hu]

/-- The most that a terminal may give is a capacity if what its arcs allow is one. -/
theorem isCapacity_of_locateAll (h : locateAll net own terminals = .ok located)
    {t : Fin net.order × K} (ht : t ∈ located) (hown : Quantity.IsCapacity (own t.1)) :
    Quantity.IsCapacity t.2 := by
  cases terminals with
  | list ids =>
      obtain ⟨id, -, heq⟩ := (exists_of_forall₂ (forall₂_of_mapM h)).2 t ht
      obtain ⟨v, -, rfl⟩ := except_map_eq_ok_iff.mp heq
      exact hown
  | map entries =>
      obtain ⟨entry, -, heq⟩ := (exists_of_forall₂ (forall₂_of_mapM h)).2 t ht
      obtain ⟨⟨hcapacity, -⟩, rfl⟩ := locateEntry_eq_ok_iff.mp heq
      exact hcapacity

theorem resolve_eq_ok (h : resolve net own terminals = .ok located) :
    locateAll net own terminals = .ok located ∧ (located.map Prod.fst).Nodup := by
  unfold resolve at h
  obtain ⟨ts, hts, h⟩ := except_bind_eq_ok_iff.mp h
  split at h
  next => cases h
  next hnone =>
    cases h
    refine ⟨hts, List.Nodup.of_map Fin.val ?_⟩
    rw [List.map_map]
    exact repeated?_eq_none_iff.mp hnone

theorem resolve_of_locateAll (h : locateAll net own terminals = .ok located)
    (hnodup : (located.map Prod.fst).Nodup) : resolve net own terminals = .ok located := by
  have hnone : repeated? (located.map fun t => t.1.val) = none := by
    refine repeated?_eq_none_iff.mpr ?_
    have hvals := hnodup.map Fin.val_injective
    rwa [List.map_map] at hvals
  unfold resolve
  rw [h]
  simp only [bind, Except.bind, hnone]
  rfl

/-- The terminals of a list stay where they are if they are given capacities. -/
theorem exists_locateAll_map {ids : List Nat} {entries : List (Nat × K)}
    (h : locateAll net own (.list ids) = .ok located) (hids : entries.map Prod.fst = ids)
    (hmost : ∀ e ∈ entries, Quantity.IsCapacity e.2 ∧ Quantity.isFinite e.2 = true) :
    ∃ raised, locateAll net own (.map entries) = .ok raised ∧
      raised.map Prod.fst = located.map Prod.fst := by
  subst hids
  have hlocated : List.Forall₂ (fun id t => (locate net id).map (fun v => (v, own v)) = .ok t)
      (entries.map Prod.fst) located := forall₂_of_mapM h
  clear h
  induction entries generalizing located with
  | nil =>
      cases hlocated
      exact ⟨[], rfl, rfl⟩
  | cons e entries ih =>
      obtain ⟨t, ts, ht, hts, rfl⟩ := List.forall₂_cons_left_iff.mp hlocated
      obtain ⟨raised, hraised, hfst⟩ := ih (fun e he => hmost e (List.mem_cons_of_mem _ he)) hts
      obtain ⟨v, hv, rfl⟩ := except_map_eq_ok_iff.mp ht
      have hid : e = (v.val, e.2) := Prod.ext (locate_eq_ok_iff.mp hv) rfl
      have hentry : locateEntry net e = .ok (v, e.2) :=
        locateEntry_eq_ok_iff.mpr ⟨hmost e List.mem_cons_self, hid⟩
      refine ⟨(v, e.2) :: raised, ?_, by rw [List.map_cons, List.map_cons, hfst]⟩
      dsimp only [locateAll] at hraised ⊢
      rw [List.mapM_cons, hentry, hraised]
      rfl

end Terminals

variable {p : Problem K}

theorem badLimit?_eq_none_iff : p.badLimit? = none ↔
    ∀ (v : Fin p.network.order) limit, p.limits[v] = some limit → Quantity.IsCapacity limit := by
  unfold badLimit?
  rw [List.findSome?_eq_none_iff]
  refine ⟨fun h v limit hlimit => ?_, fun h v _ => ?_⟩
  · by_contra hnot
    have := h v (List.mem_finRange v)
    simp [hlimit, hnot] at this
  · cases hlimit : p.limits[v] with
    | none => rfl
    | some limit => simp [h v limit hlimit]

theorem badArc?_eq_none_iff : p.badArc? = none ↔
    ∀ v, ∀ a ∈ p.network.outgoing v, Quantity.IsCapacity a.2 := by
  unfold badArc?
  simp only [List.findSome?_eq_none_iff, List.mem_finRange, Option.map_eq_none_iff,
    List.find?_eq_none, true_implies, decide_not, Bool.not_eq_true', Bool.not_eq_false,
    decide_eq_true_eq]

/-- What the checks leave to rely on. -/
structure Accepted (p : Problem K) (c : Checked p.network) : Prop where
  limit_isCapacity : ∀ (v : Fin p.network.order) limit, p.limits[v] = some limit →
    Quantity.IsCapacity limit
  arc_isCapacity : ∀ v, ∀ a ∈ p.network.outgoing v, Quantity.IsCapacity a.2
  sources : locateAll p.network p.network.outCapacity p.sources = .ok c.sources
  targets : locateAll p.network (fun v => p.network.inCapacities[v]) p.targets = .ok c.targets
  sources_nodup : (c.sources.map Prod.fst).Nodup
  targets_nodup : (c.targets.map Prod.fst).Nodup
  disjoint : ∀ s ∈ c.sources, ∀ t ∈ c.targets, t.1 ≠ s.1

theorem accepted_of_check {c : Checked p.network} (h : p.check = .ok c) : p.Accepted c := by
  unfold Problem.check at h
  dsimp only at h
  split at h
  next => cases h
  split at h
  next => cases h
  split at h
  next => cases h
  next hlimit =>
  split at h
  next => cases h
  next harc =>
  obtain ⟨sources, hsources, h⟩ := except_bind_eq_ok_iff.mp h
  obtain ⟨targets, htargets, h⟩ := except_bind_eq_ok_iff.mp h
  split at h
  next => cases h
  next hcommon =>
  cases h
  obtain ⟨hsources, hsourcesNodup⟩ := resolve_eq_ok hsources
  obtain ⟨htargets, htargetsNodup⟩ := resolve_eq_ok htargets
  refine ⟨badLimit?_eq_none_iff.mp ?_, badArc?_eq_none_iff.mp ?_, hsources, htargets,
    hsourcesNodup, htargetsNodup, fun s hs t ht heq => ?_⟩
  · exact Option.eq_none_iff_forall_ne_some.mpr fun v => hlimit v.1 v.2
  · exact Option.eq_none_iff_forall_ne_some.mpr harc
  · have := List.find?_eq_none.mp hcommon s hs
    exact this (List.any_eq_true.mpr ⟨t, ht, decide_eq_true heq⟩)

theorem not_isEmpty_of_check {c : Checked p.network} (h : p.check = .ok c) :
    p.sources.isEmpty = false ∧ p.targets.isEmpty = false := by
  unfold Problem.check at h
  dsimp only at h
  split at h
  next => cases h
  next hsources =>
  split at h
  next => cases h
  next htargets => exact ⟨eq_false_of_ne_true hsources, eq_false_of_ne_true htargets⟩

/-- Nothing else is checked but that there are terminals. -/
theorem check_of_accepted {c : Checked p.network} (h : p.Accepted c)
    (hsources : p.sources.isEmpty = false) (htargets : p.targets.isEmpty = false) :
    p.check = .ok c := by
  have hcommon : (c.sources.find? fun s => c.targets.any fun t => t.1 = s.1) = none := by
    refine List.find?_eq_none.mpr fun s hs hany => ?_
    obtain ⟨t, ht, heq⟩ := List.any_eq_true.mp hany
    exact h.disjoint s hs t ht (of_decide_eq_true heq)
  have hs := resolve_of_locateAll h.sources h.sources_nodup
  have ht := resolve_of_locateAll h.targets h.targets_nodup
  unfold Problem.check
  rw [badLimit?_eq_none_iff.mpr h.limit_isCapacity, badArc?_eq_none_iff.mpr h.arc_isCapacity]
  simp only [hsources, htargets, hs, ht, bind, Except.bind, pure, Except.pure, hcommon]
  rfl

namespace Accepted

variable {K : Type} [AddCommGroup K] [LinearOrder K] {p : Problem K} {c : Checked p.network}

theorem mem_sources_iff (h : p.Accepted c) (v : Fin p.network.order) (most : K) :
    (v, most) ∈ c.sources ↔ p.Supplies v most := by
  rw [mem_iff_of_locateAll h.sources, Network.outCapacity_eq]
  rfl

theorem mem_targets_iff (h : p.Accepted c) (v : Fin p.network.order) (most : K) :
    (v, most) ∈ c.targets ↔ p.Demands v most := by
  rw [mem_iff_of_locateAll h.targets, Network.inCapacities_eq]
  rfl

theorem isSource_iff (h : p.Accepted c) (v : Fin p.network.order) :
    p.IsSource v ↔ ∃ most, (v, most) ∈ c.sources := by
  simp only [h.mem_sources_iff]
  exact Terminals.mem_ids_iff

theorem isTarget_iff (h : p.Accepted c) (v : Fin p.network.order) :
    p.IsTarget v ↔ ∃ most, (v, most) ∈ c.targets := by
  simp only [h.mem_targets_iff]
  exact Terminals.mem_ids_iff

theorem not_isTarget (h : p.Accepted c) {v : Fin p.network.order} (hv : p.IsSource v) :
    ¬ p.IsTarget v := by
  intro htarget
  obtain ⟨most, hs⟩ := (h.isSource_iff v).mp hv
  obtain ⟨most', ht⟩ := (h.isTarget_iff v).mp htarget
  exact h.disjoint _ hs _ ht rfl

theorem capacity_nonneg (h : p.Accepted c) (a : p.network.Place) : 0 ≤ a.capacity :=
  h.arc_isCapacity a.tail _ (List.mem_of_mem_filter (List.getElem_mem _))

variable [IsOrderedAddMonoid K]

theorem source_nonneg (h : p.Accepted c) {s : Fin p.network.order × K} (hs : s ∈ c.sources) :
    0 ≤ s.2 := by
  apply isCapacity_of_locateAll h.sources hs
  rw [Network.outCapacity_eq]
  apply Finset.sum_nonneg
  intro a _
  split
  · exact h.capacity_nonneg a
  · exact le_rfl

theorem target_nonneg (h : p.Accepted c) {t : Fin p.network.order × K} (ht : t ∈ c.targets) :
    0 ≤ t.2 := by
  apply isCapacity_of_locateAll h.targets ht
  rw [Network.inCapacities_eq]
  apply Finset.sum_nonneg
  intro a _
  split
  · exact h.capacity_nonneg a
  · exact le_rfl

end Accepted

end Problem

end PushRelabel
