import PushRelabel.Proofs.FlowGraph.Check

/-! # Networks as they grow

A network lists arcs if each of its nodes has those that leave it, in their order. Adding nodes
keeps what is listed, and an arc that is added comes last. Arcs are added as far as there is room
for their ends, and a network of arcs is created if and only if there is room for the ends of all;
its order is one more than the largest of them.
-/

namespace PushRelabel.Network

variable {K : Type} {net net' : Network K} {arc : Arc K} {arcs before : List (Arc K)} {node : Nat}

/-! ## Arcs of a network -/

/-- The arcs of a list that leave a node, each with its head and its capacity. -/
def departing (arcs : List (Arc K)) (node : Nat) : List (Nat × K) :=
  (arcs.filter (·.tail = node)).map fun arc => (arc.head, arc.capacity)

/-- A network has the arcs of a list, those of each node in the order of the list. -/
structure Lists (net : Network K) (arcs : List (Arc K)) : Prop where
  arcCount_eq : net.arcCount = arcs.length
  successors_eq : ∀ node < net.order, net.successors node = .ok (departing arcs node)
  ends_lt : ∀ arc ∈ arcs, max arc.tail arc.head < net.order

@[simp] theorem departing_append (arcs arcs' : List (Arc K)) (node : Nat) :
    departing (arcs ++ arcs') node = departing arcs node ++ departing arcs' node := by
  simp [departing]

theorem departing_singleton (arc : Arc K) (node : Nat) :
    departing [arc] node = if arc.tail = node then [(arc.head, arc.capacity)] else [] := by
  by_cases h : arc.tail = node <;> simp [departing, h]

theorem length_departing (arcs : List (Arc K)) (node : Nat) :
    (departing arcs node).length = (arcs.map Arc.tail).count node := by
  rw [departing, List.length_map, List.count, List.countP_map, List.countP_eq_length_filter]
  rfl

theorem mem_departing_iff {a : Nat × K} : a ∈ departing arcs node ↔
    ∃ arc ∈ arcs, arc.tail = node ∧ (arc.head, arc.capacity) = a := by
  simp [departing, and_assoc]

theorem Lists.departing_eq_nil (h : net.Lists arcs) (hnode : net.order ≤ node) :
    departing arcs node = [] := by
  rw [departing, List.map_eq_nil_iff, List.filter_eq_nil_iff]
  intro arc harc
  have := h.ends_lt arc harc
  simp only [decide_eq_true_eq]
  omega

theorem successors_growTo (net : Network K) {new : Nat} (hnode : node < (net.growTo new).order) :
    (net.growTo new).successors node =
      if node < net.order then net.successors node else .ok [] := by
  rw [order_growTo, order] at hnode
  by_cases hold : node < net.order
  · rw [if_pos hold]
    simp only [successors, growTo, Array.getElem?_append_left hold]
  · have hnew : node - net.rows.size < new + 1 - net.rows.size := by
      rw [order] at hold
      omega
    rw [if_neg hold]
    simp only [successors, growTo, Array.getElem?_append_right (Nat.le_of_not_lt hold),
      Array.getElem?_replicate, if_pos hnew]

theorem successors_insertArc (net : Network K) (arc : Arc K) (h : arc.head < net.rows.size)
    (node : Nat) : (net.insertArc arc h).successors node =
      (net.successors node).map (· ++ departing [arc] node) := by
  simp only [successors, insertArc, Array.getElem?_modify, departing_singleton]
  by_cases htail : arc.tail = node
  · cases net.rows[node]? <;> simp [htail, Except.map]
  · cases net.rows[node]? <;> simp [htail, Except.map]

theorem lists_ofOrder (order : Nat) : (ofOrder order : Network K).Lists [] where
  arcCount_eq := rfl
  successors_eq := by
    intro node hnode
    rw [order_ofOrder] at hnode
    simp [successors, ofOrder, hnode, departing]
  ends_lt := nofun

theorem Lists.growTo (h : net.Lists arcs) (new : Nat) : (net.growTo new).Lists arcs where
  arcCount_eq := h.arcCount_eq
  successors_eq := by
    intro node hnode
    rw [successors_growTo net hnode]
    split
    next hold => exact h.successors_eq node hold
    next hnew => rw [h.departing_eq_nil (Nat.le_of_not_lt hnew)]
  ends_lt := by
    intro arc harc
    rw [order_growTo]
    exact Nat.lt_of_lt_of_le (h.ends_lt arc harc) (Nat.le_max_left _ _)

theorem Lists.insertArc (h : net.Lists arcs) (hends : max arc.tail arc.head < net.order)
    (hhead : arc.head < net.rows.size) : (net.insertArc arc hhead).Lists (arcs ++ [arc]) where
  arcCount_eq := by
    rw [List.length_append, ← h.arcCount_eq]
    rfl
  successors_eq := by
    intro node hnode
    rw [order_insertArc] at hnode
    rw [successors_insertArc, h.successors_eq node hnode, departing_append]
    rfl
  ends_lt := by
    intro arc' harc'
    rw [order_insertArc]
    rcases List.mem_append.mp harc' with hold | hnew
    · exact h.ends_lt arc' hold
    · exact List.mem_singleton.mp hnew ▸ hends

theorem Lists.growArc (h : net.Lists arcs) (arc : Arc K) :
    (net.growArc arc).Lists (arcs ++ [arc]) := by
  refine (h.growTo _).insertArc ?_ _
  rw [order_growTo]
  omega

theorem Lists.foldl_growArc (h : net.Lists before) (arcs : List (Arc K)) :
    (arcs.foldl Network.growArc net).Lists (before ++ arcs) := by
  induction arcs generalizing net before with
  | nil => rwa [List.append_nil]
  | cons arc arcs ih =>
      rw [List.foldl_cons, List.append_cons]
      exact ih (h.growArc arc)

theorem addArc_eq_ok_iff : net.addArc arc = .ok net' ↔
    ∃ h : max arc.tail arc.head < net.order,
      net.insertArc arc (Nat.lt_of_le_of_lt (Nat.le_max_right _ _) h) = net' := by
  unfold addArc
  split
  next h => simp [h]
  next h => simp [h]

/-- Arcs between nodes that are there are all added. -/
theorem Lists.foldlM_addArc (h : net.Lists before)
    (harcs : ∀ arc ∈ arcs, max arc.tail arc.head < net.order) :
    ∃ net', arcs.foldlM addArc net = .ok net' ∧ net'.order = net.order ∧
      net'.Lists (before ++ arcs) := by
  induction arcs generalizing net before with
  | nil => exact ⟨net, rfl, rfl, by rwa [List.append_nil]⟩
  | cons arc arcs ih =>
      obtain ⟨hends, harcs⟩ := List.forall_mem_cons.mp harcs
      have hhead : arc.head < net.order := Nat.lt_of_le_of_lt (Nat.le_max_right _ _) hends
      have horder := order_insertArc net arc hhead
      obtain ⟨net', hadds, horder', hlists⟩ :=
        ih (h.insertArc hends hhead) (horder.symm ▸ harcs)
      refine ⟨net', ?_, horder'.trans horder, by rwa [List.append_cons]⟩
      exact except_bind_eq_ok_iff.mpr ⟨_, addArc_eq_ok_iff.mpr ⟨hends, rfl⟩, hadds⟩

theorem Lists.length_eq_sum (h : net.Lists arcs) :
    arcs.length = ∑ node ∈ Finset.range net.order, (departing arcs node).length := by
  have htails : ∀ tail ∈ (arcs.map Arc.tail : Multiset Nat), tail ∈ Finset.range net.order := by
    intro tail htail
    obtain ⟨arc, harc, rfl⟩ := List.mem_map.mp (Multiset.mem_coe.mp htail)
    have := h.ends_lt arc harc
    exact Finset.mem_range.mpr (by omega)
  have hcount := Multiset.sum_count_eq_card htails
  rw [Multiset.coe_card, List.length_map] at hcount
  rw [← hcount]
  refine Finset.sum_congr rfl fun node _ => ?_
  rw [Multiset.coe_count, length_departing]

/-! ## Room for nodes -/

/-- There is room for the ends of an arc. -/
def Admits (arc : Arc K) : Prop := Room.Holds Room.rowBytes (max arc.tail arc.head + 1)

instance (arc : Arc K) : Decidable (Admits arc) := inferInstanceAs (Decidable (Room.Holds _ _))

/-- The arcs before the first one for whose ends there is no room. -/
def admitted (arcs : List (Arc K)) : List (Arc K) := arcs.takeWhile fun arc => Admits arc

theorem canHold_iff (hroom : Room.Holds Room.rowBytes net.order) :
    net.CanHold node ↔ Room.Holds Room.rowBytes (node + 1) :=
  ⟨fun h => h.elim (fun hlt => hroom.mono hlt) id, Or.inr⟩

theorem holds_order_growTo (hroom : Room.Holds Room.rowBytes net.order)
    (hnode : Room.Holds Room.rowBytes (node + 1)) :
    Room.Holds Room.rowBytes (net.growTo node).order := by
  rw [order_growTo]
  rcases max_choice net.order (node + 1) with h | h
  · rwa [h]
  · rwa [h]

theorem holds_order_growArc (hroom : Room.Holds Room.rowBytes net.order) (harc : Admits arc) :
    Room.Holds Room.rowBytes (net.growArc arc).order := by
  rw [growArc, order_insertArc]
  exact holds_order_growTo hroom harc

theorem holds_order_foldl_growArc (hroom : Room.Holds Room.rowBytes net.order)
    (harcs : ∀ arc ∈ arcs, Admits arc) :
    Room.Holds Room.rowBytes (arcs.foldl growArc net).order := by
  induction arcs generalizing net with
  | nil => exact hroom
  | cons arc arcs ih =>
      obtain ⟨harc, harcs⟩ := List.forall_mem_cons.mp harcs
      exact ih (holds_order_growArc hroom harc) harcs

theorem admits_of_mem_admitted (h : arc ∈ admitted arcs) : Admits arc :=
  of_decide_eq_true (List.mem_takeWhile_imp (p := fun arc => decide (Admits arc)) h)

theorem admitted_cons (arc : Arc K) (arcs : List (Arc K)) :
    admitted (arc :: arcs) = if Admits arc then arc :: admitted arcs else [] := by
  by_cases harc : Admits arc <;> simp [admitted, harc]

theorem admitted_eq_self (h : ∀ arc ∈ arcs, Admits arc) : admitted arcs = arcs := by
  simpa [admitted] using h

theorem receive_eq (hroom : Room.Holds Room.rowBytes net.order) (arc : Arc K) :
    net.receive arc = if Admits arc then .ok (net.growArc arc) else .error .noRoom := by
  by_cases harc : Admits arc
  · rw [if_pos harc]
    exact if_pos ((canHold_iff hroom).mpr harc)
  · rw [if_neg harc]
    exact if_neg (mt (canHold_iff hroom).mp harc)

/-- Arcs are added as far as there is room for their ends. -/
theorem addArcs_eq (hroom : Room.Holds Room.rowBytes net.order) (arcs : List (Arc K)) :
    addArcs arcs net =
      if ∀ arc ∈ arcs, Admits arc then .ok () ((admitted arcs).foldl growArc net)
      else .error .noRoom ((admitted arcs).foldl growArc net) := by
  induction arcs generalizing net with
  | nil => rfl
  | cons arc arcs ih =>
      have hreceive := receive_eq hroom arc
      rw [admitted_cons]
      by_cases harc : Admits arc
      · rw [if_pos harc] at hreceive
        simp only [addArcs, hreceive, List.forall_mem_cons, harc, true_and]
        exact ih (holds_order_growArc hroom harc)
      · rw [if_neg harc] at hreceive
        simp [addArcs, hreceive, harc]

theorem foldlM_receive_eq (hroom : Room.Holds Room.rowBytes net.order) (arcs : List (Arc K)) :
    arcs.foldlM receive net =
      if ∀ arc ∈ arcs, Admits arc then .ok (arcs.foldl growArc net) else .error .noRoom := by
  induction arcs generalizing net with
  | nil => rfl
  | cons arc arcs ih =>
      rw [List.foldlM_cons, receive_eq hroom]
      by_cases harc : Admits arc
      · simp only [List.forall_mem_cons, harc, true_and]
        exact ih (holds_order_growArc hroom harc)
      · rw [if_neg harc, if_neg fun hall => harc (hall arc List.mem_cons_self)]
        rfl

/-- A network of arcs is created if and only if there is room for their ends. -/
theorem ofArcs_eq (arcs : List (Arc K)) : ofArcs arcs =
    if ∀ arc ∈ arcs, Admits arc then .ok (arcs.foldl growArc empty) else .error .noRoom :=
  foldlM_receive_eq (Nat.zero_le _) arcs

theorem ofArcs_eq_ok_iff : ofArcs arcs = .ok net ↔
    (∀ arc ∈ arcs, Admits arc) ∧ arcs.foldl growArc empty = net := by
  rw [ofArcs_eq]
  split
  next hall => exact ⟨fun h => ⟨hall, Except.ok.inj h⟩, fun h => congrArg Except.ok h.2⟩
  next hall => exact iff_of_false nofun fun h => hall h.1

/-! ## The number of nodes -/

/-- One more than the largest node that is the tail or the head of an arc; nothing without arcs. -/
def nodesNamed (arcs : List (Arc K)) : Nat :=
  (arcs.flatMap fun arc => [arc.tail, arc.head]).max?.elim 0 (· + 1)

theorem lt_nodesNamed_iff {n : Nat} :
    n < nodesNamed arcs ↔ ∃ arc ∈ arcs, n ≤ max arc.tail arc.head := by
  unfold nodesNamed
  cases hmax : (arcs.flatMap fun arc => [arc.tail, arc.head]).max? with
  | none =>
      have hnil : arcs = [] := List.eq_nil_iff_forall_not_mem.mpr (by simpa using hmax)
      simp [hnil]
  | some largest =>
      obtain ⟨hmem, hle⟩ := List.max?_eq_some_iff.mp hmax
      simp only [List.mem_flatMap, List.mem_cons, List.not_mem_nil, or_false] at hmem hle
      change n < largest + 1 ↔ _
      constructor
      · obtain ⟨arc, harc, heq⟩ := hmem
        exact fun hn => ⟨arc, harc, by omega⟩
      · rintro ⟨arc, harc, hn⟩
        have htail := hle arc.tail ⟨arc, harc, Or.inl rfl⟩
        have hhead := hle arc.head ⟨arc, harc, Or.inr rfl⟩
        omega

theorem nodesNamed_cons (arc : Arc K) (arcs : List (Arc K)) :
    nodesNamed (arc :: arcs) = max (max arc.tail arc.head + 1) (nodesNamed arcs) := by
  refine eq_of_forall_lt_iff fun n => ?_
  rw [lt_nodesNamed_iff, List.exists_mem_cons_iff, ← lt_nodesNamed_iff, lt_max_iff,
    Nat.lt_succ_iff]

theorem order_foldl_growArc (net : Network K) (arcs : List (Arc K)) :
    (arcs.foldl growArc net).order = max net.order (nodesNamed arcs) := by
  induction arcs generalizing net with
  | nil => simp [nodesNamed]
  | cons arc arcs ih => rw [List.foldl_cons, ih, order_growArc, nodesNamed_cons, max_assoc]

theorem order_ofArcs (h : ofArcs arcs = .ok net) : net.order = nodesNamed arcs := by
  obtain ⟨-, rfl⟩ := ofArcs_eq_ok_iff.mp h
  exact (order_foldl_growArc empty arcs).trans (Nat.zero_max _)

end PushRelabel.Network
