import PushRelabel.Proofs.FlowGraph.Check
import PushRelabel.Proofs.Flow.Carried

/-! # What the arcs of a flow graph stand for

Each arc of a built flow graph carries what an arc of the network carries, or throttles
a limited node, or supplies a source, or takes from a target. Each of these roles is
played by exactly one arc, so a flow of the graph amounts to one amount for each role.
-/

namespace PushRelabel.Problem

variable {K : Type} {p : Problem K}

/-! ## Split nodes -/

theorem mem_splits_iff (v : Fin p.network.order) : v ∈ p.splits ↔ p.limits[v].isSome := by
  simp [splits]

theorem nodup_splits (p : Problem K) : p.splits.toList.Nodup := by
  rw [splits, List.toList_toArray]
  exact (List.nodup_finRange _).filter _

theorem finIdxOf?_splits (k : Fin p.splits.size) : p.splits.finIdxOf? (p.origin k) = some k := by
  refine Array.finIdxOf?_eq_some_iff.mpr ⟨rfl, fun j hj heq => ?_⟩
  have hindex := (List.Nodup.getElem_inj_iff p.nodup_splits).mp heq
  exact hj.ne (Fin.ext hindex)

theorem finIdxOf?_of_unlimited {v : Fin p.network.order} (h : p.limits[v] = none) :
    p.splits.finIdxOf? v = none := by
  refine Array.finIdxOf?_eq_none_iff.mpr ?_
  rw [mem_splits_iff, h]
  exact Bool.false_ne_true

theorem splits_injective {j k : Fin p.splits.size} (h : p.origin j = p.origin k) : j = k := by
  have hindex := finIdxOf?_splits j
  rw [h, finIdxOf?_splits] at hindex
  exact (Option.some.inj hindex).symm

theorem exit_splits (k : Fin p.splits.size) : p.exit (p.origin k) = p.splitNode k := by
  rw [exit, finIdxOf?_splits]

theorem exit_of_unlimited {v : Fin p.network.order} (h : p.limits[v] = none) :
    p.exit v = p.inner v := by
  rw [exit, finIdxOf?_of_unlimited h]

theorem exists_split {v : Fin p.network.order} {limit : K} (h : p.limits[v] = some limit) :
    ∃ k : Fin p.splits.size, p.origin k = v := by
  have hmem : v ∈ p.splits := by
    rw [mem_splits_iff, h]
    rfl
  obtain ⟨k, hk, heq⟩ := Array.mem_iff_getElem.mp hmem
  exact ⟨⟨k, hk⟩, heq⟩

/-- The limit of a node that was split. -/
def limitAt (p : Problem K) (k : Fin p.splits.size) : K :=
  (p.limits[p.origin k]).get ((mem_splits_iff _).mp (Array.getElem_mem k.isLt))

theorem limits_splits (k : Fin p.splits.size) : p.limits[p.origin k] = some (p.limitAt k) :=
  (Option.some_get _).symm

theorem arcs_eq (c : Checked p.network) : p.arcs c =
    (List.finRange p.network.order).flatMap p.innerArcs ++ p.sourceArcs c ++ p.targetArcs c ++
      (List.finRange p.splits.size).flatMap p.splitArcs := by
  rw [arcs, rows, Vector.toList_append, Vector.toList_append, Vector.toList_ofFn,
    Vector.toList_ofFn, List.ofFn_eq_map, List.ofFn_eq_map]
  simp [List.flatMap_def]

/-! ## Roles -/

inductive Role (c : Checked p.network) where
  | carry (a : p.network.Place)
  | throttle (k : Fin p.splits.size)
  | supply (j : Fin c.sources.length)
  | demand (j : Fin c.targets.length)

variable {c : Checked p.network}

namespace Role

/-- The arc that plays a role. -/
def link : Role c → Link (p.network.order + 2 + p.splits.size) K
  | carry a => ⟨p.exit a.tail, p.inner a.head, a.capacity⟩
  | throttle k => ⟨p.inner (p.origin k), p.splitNode k, p.limitAt k⟩
  | supply j => ⟨p.superSource, p.inner (c.sources.get j).1, (c.sources.get j).2⟩
  | demand j => ⟨p.superTarget, p.exit (c.targets.get j).1, (c.targets.get j).2⟩

/-- The roles of the arcs that leave a node of the network. -/
def carries (c : Checked p.network) (v : Fin p.network.order) : List (Role c) :=
  (List.finRange (p.network.proper v).length).map fun i => carry ⟨v, i⟩

def ofNode (c : Checked p.network) (v : Fin p.network.order) : List (Role c) :=
  match p.splits.finIdxOf? v with
  | some k => [throttle k]
  | none => carries c v

/-- All roles, in the order of the arcs. -/
def all (c : Checked p.network) : List (Role c) :=
  (List.finRange p.network.order).flatMap (ofNode c) ++
    (List.finRange c.sources.length).map supply ++
    (List.finRange c.targets.length).map demand ++
    (List.finRange p.splits.size).flatMap fun k => carries c (p.origin k)

theorem ofNode_splits (c : Checked p.network) (k : Fin p.splits.size) :
    ofNode c (p.origin k) = [throttle k] := by
  rw [ofNode, finIdxOf?_splits]

theorem ofNode_of_unlimited (c : Checked p.network) {v : Fin p.network.order}
    (h : p.limits[v] = none) : ofNode c v = carries c v := by
  rw [ofNode, finIdxOf?_of_unlimited h]

theorem mem_carries_iff {v : Fin p.network.order} {r : Role c} :
    r ∈ carries c v ↔ ∃ a : p.network.Place, r = carry a ∧ a.tail = v := by
  simp only [carries, List.mem_map, List.mem_finRange, true_and]
  constructor
  · rintro ⟨i, rfl⟩
    exact ⟨⟨v, i⟩, rfl, rfl⟩
  · rintro ⟨⟨u, i⟩, rfl, rfl⟩
    exact ⟨i, rfl⟩

theorem nodup_carries (c : Checked p.network) (v : Fin p.network.order) : (carries c v).Nodup := by
  refine (List.nodup_finRange _).map fun i j h => ?_
  simpa using h

theorem mem_all (r : Role c) : r ∈ all c := by
  simp only [all, List.mem_append, List.mem_flatMap, List.mem_map, List.mem_finRange, true_and]
  cases r with
  | supply j => exact Or.inl (Or.inl (Or.inr ⟨j, rfl⟩))
  | demand j => exact Or.inl (Or.inr ⟨j, rfl⟩)
  | throttle k =>
      refine Or.inl (Or.inl (Or.inl ⟨p.origin k, ?_⟩))
      rw [ofNode_splits]
      exact List.mem_singleton.mpr rfl
  | carry a =>
      cases hlimit : p.limits[a.tail] with
      | none =>
          refine Or.inl (Or.inl (Or.inl ⟨a.tail, ?_⟩))
          rw [ofNode_of_unlimited c hlimit]
          exact mem_carries_iff.mpr ⟨a, rfl, rfl⟩
      | some limit =>
          obtain ⟨k, hk⟩ := exists_split hlimit
          exact Or.inr ⟨k, mem_carries_iff.mpr ⟨a, rfl, hk.symm⟩⟩

/-- The node of the network that a role belongs to, for the roles of inner arcs. -/
def owner : Role c → Option (Fin p.network.order)
  | carry a => some a.tail
  | throttle k => some (p.origin k)
  | supply _ => none
  | demand _ => none

theorem owner_of_mem_ofNode {v : Fin p.network.order} {r : Role c} (h : r ∈ ofNode c v) :
    r.owner = some v := by
  cases hlimit : p.limits[v] with
  | none =>
      rw [ofNode_of_unlimited c hlimit] at h
      obtain ⟨a, rfl, rfl⟩ := mem_carries_iff.mp h
      rfl
  | some limit =>
      obtain ⟨k, rfl⟩ := exists_split hlimit
      rw [ofNode_splits] at h
      rw [List.mem_singleton.mp h, owner]

theorem nodup_ofNode (c : Checked p.network) (v : Fin p.network.order) : (ofNode c v).Nodup := by
  unfold ofNode
  split
  · exact List.nodup_singleton _
  · exact nodup_carries c v

theorem owner_of_mem_flatMap {r : Role c}
    (h : r ∈ (List.finRange p.network.order).flatMap (ofNode c)) :
    ∃ v, r ∈ ofNode c v ∧ r.owner = some v := by
  obtain ⟨v, -, hv⟩ := List.mem_flatMap.mp h
  exact ⟨v, hv, owner_of_mem_ofNode hv⟩

theorem nodup_flatMap_ofNode (c : Checked p.network) :
    ((List.finRange p.network.order).flatMap (ofNode c)).Nodup := by
  refine List.nodup_flatMap.mpr ⟨fun v _ => nodup_ofNode c v, ?_⟩
  refine (List.nodup_finRange _).imp fun hne r hr hr' => hne ?_
  exact Option.some.inj ((owner_of_mem_ofNode hr).symm.trans (owner_of_mem_ofNode hr'))

theorem nodup_flatMap_carries (c : Checked p.network) :
    ((List.finRange p.splits.size).flatMap fun k => carries c (p.origin k)).Nodup := by
  refine List.nodup_flatMap.mpr ⟨fun k _ => nodup_carries c _, ?_⟩
  refine (List.nodup_finRange _).imp fun hne r hr hr' => hne ?_
  obtain ⟨a, rfl, ha⟩ := mem_carries_iff.mp hr
  obtain ⟨b, hb, hb'⟩ := mem_carries_iff.mp hr'
  obtain rfl := Role.carry.inj hb
  exact splits_injective (ha.symm.trans hb')

/-- A split node is owned by its throttle, so what leaves it is not among the first roles. -/
theorem carry_notMem_flatMap {a : p.network.Place} {k : Fin p.splits.size}
    (ha : a.tail = p.origin k) :
    carry a ∉ (List.finRange p.network.order).flatMap (ofNode c) := by
  intro h
  obtain ⟨v, hmem, hv⟩ := owner_of_mem_flatMap h
  obtain rfl : a.tail = v := Option.some.inj hv
  rw [ha, ofNode_splits] at hmem
  exact nomatch List.mem_singleton.mp hmem

theorem nodup_all (c : Checked p.network) : (all c).Nodup := by
  have hsupply : ((List.finRange c.sources.length).map (supply (c := c))).Nodup :=
    (List.nodup_finRange _).map fun _ _ h => Role.supply.inj h
  have hdemand : ((List.finRange c.targets.length).map (demand (c := c))).Nodup :=
    (List.nodup_finRange _).map fun _ _ h => Role.demand.inj h
  -- roles of two kinds differ, and a place comes last only if its tail is split
  refine List.nodup_append.mpr ⟨List.nodup_append.mpr ⟨List.nodup_append.mpr
    ⟨nodup_flatMap_ofNode c, hsupply, ?supply⟩, hdemand, ?demand⟩, nodup_flatMap_carries c, ?carry⟩
  case supply =>
    rintro r hr _ hq rfl
    obtain ⟨v, -, hv⟩ := owner_of_mem_flatMap hr
    obtain ⟨j, -, rfl⟩ := List.mem_map.mp hq
    exact nomatch hv
  case demand =>
    rintro r hr _ hq rfl
    obtain ⟨j, -, rfl⟩ := List.mem_map.mp hq
    rcases List.mem_append.mp hr with hr | hr
    · obtain ⟨v, -, hv⟩ := owner_of_mem_flatMap hr
      exact nomatch hv
    · obtain ⟨i, -, heq⟩ := List.mem_map.mp hr
      exact nomatch heq
  case carry =>
    rintro r hr _ hq rfl
    obtain ⟨k, -, hk⟩ := List.mem_flatMap.mp hq
    obtain ⟨a, rfl, ha⟩ := mem_carries_iff.mp hk
    rcases List.mem_append.mp hr with hr | hr
    · rcases List.mem_append.mp hr with hr | hr
      · exact carry_notMem_flatMap ha hr
      · obtain ⟨j, -, heq⟩ := List.mem_map.mp hr
        exact nomatch heq
    · obtain ⟨j, -, heq⟩ := List.mem_map.mp hr
      exact nomatch heq

theorem map_link_carries (v : Fin p.network.order) :
    (carries c v).map link = p.arcsFrom (p.exit v) v := by
  unfold carries Problem.arcsFrom
  rw [List.map_map]
  conv_rhs => rw [← List.map_getElem_finRange (p.network.proper v), List.map_map]
  rfl

theorem map_link_ofNode (v : Fin p.network.order) :
    (ofNode c v).map link = p.innerArcs v := by
  unfold Problem.innerArcs
  cases hlimit : p.limits[v] with
  | none =>
      rw [ofNode_of_unlimited c hlimit, map_link_carries, exit_of_unlimited hlimit]
  | some limit =>
      obtain ⟨k, rfl⟩ := exists_split hlimit
      obtain rfl := Option.some.inj ((limits_splits k).symm.trans hlimit)
      rw [ofNode_splits, exit_splits]
      rfl

/-- The arcs of the flow graph play all roles in order. -/
theorem map_link_all (c : Checked p.network) : (all c).map link = p.arcs c := by
  unfold all
  rw [arcs_eq, List.map_append, List.map_append, List.map_append, List.map_flatMap,
    List.map_flatMap, List.map_map, List.map_map]
  congr 1
  · congr 1
    · congr 1
      · exact List.flatMap_congr fun v _ => map_link_ofNode v
      · unfold Problem.sourceArcs
        conv_rhs => rw [← List.map_getElem_finRange c.sources, List.map_map]
        rfl
    · unfold Problem.targetArcs
      conv_rhs => rw [← List.map_getElem_finRange c.targets, List.map_map]
      rfl
  · apply List.flatMap_congr
    intro k _
    rw [map_link_carries, exit_splits, splitArcs]

theorem length_all (c : Checked p.network) :
    (all c).length = (p.assemble c).arcCount := by
  change _ = (p.arcs c).toArray.size
  rw [← map_link_all, List.size_toArray, List.length_map]

/-- The role of each arc of the flow graph. No two arcs have the same one. -/
noncomputable def ofArc (c : Checked p.network) :
    Fin (p.assemble c).arcCount ≃ Role c :=
  (finCongr (length_all c).symm).trans
    (Equiv.ofBijective _ ((nodup_all c).getBijectionOfForallMemList _ mem_all).2)

theorem getElem_arcs (c : Checked p.network) (i : Fin (p.assemble c).arcCount) :
    (p.assemble c).arcs[i] = (ofArc c i).link := by
  have hlt : i.val < (all c).length := (length_all c).symm ▸ i.isLt
  have hlink : (p.arcs c)[i.val]? = some ((all c)[i.val].link) := by
    rw [← map_link_all, List.getElem?_map, List.getElem?_eq_getElem hlt]
    rfl
  exact Option.some.inj ((List.getElem?_eq_getElem _).symm.trans hlink)

end Role

end PushRelabel.Problem
