import PushRelabel.Proofs.Network.Growth

/-! # What becomes of a network

Whatever steps a network went through, refused ones among them, it lists the arcs that were added
since it was created. A step that is refused leaves the network as it was, except that the arcs
before one for whose ends there is no room stay. An arc is refused if one of its ends is not there,
every other step only for lack of room.
-/

namespace PushRelabel.Network

variable {K : Type} {net net' : Network K} {arc : Arc K} {arcs : List (Arc K)} {node : Nat}

/-! ## Steps -/

/-- What a network is told to do, or what is put in its place. -/
inductive Step (K : Type) where
  | new
  | allocate (order : Nat)
  | addNode (node : Nat)
  | addArc (arc : Arc K)
  | addArcs (arcs : List (Arc K))
  | ofArcs (arcs : List (Arc K))
  | ofPairs (capacity : K) (pairs : List (Nat × Nat))
  | shrink

/-- A network is put in the place of the old one, unless it was refused. -/
def replace (result : Except Fault (Network K)) : EStateM Fault (Network K) Unit := fun net =>
  match result with
  | .ok net' => .ok () net'
  | .error f => .error f net

namespace Step

def run : Step K → EStateM Fault (Network K) Unit
  | new => replace (.ok .empty)
  | allocate order => replace (Network.allocate order)
  | addNode node => do let _ ← Network.addNode node
  | addArc arc => fun net => replace (net.addArc arc) net
  | addArcs arcs => Network.addArcs arcs
  | ofArcs arcs => replace (Network.ofArcs arcs)
  | ofPairs capacity pairs => replace (Network.ofPairs capacity pairs)
  | shrink => pure ()

/-- The arcs added since the network was created, after a step that was done. -/
def added (before : List (Arc K)) : Step K → List (Arc K)
  | new => []
  | allocate _ => []
  | addNode _ => before
  | addArc arc => before ++ [arc]
  | addArcs arcs => before ++ arcs
  | ofArcs arcs => arcs
  | ofPairs capacity pairs => pairs.map fun p => ⟨p.1, p.2, capacity⟩
  | shrink => before

/-- The arcs added since the network was created, after a step that was refused. -/
def kept (before : List (Arc K)) : Step K → List (Arc K)
  | addArcs arcs => before ++ admitted arcs
  | _ => before

end Step

/-- A network with the arcs that were added since it was created. -/
structure History (K : Type) where
  net : Network K
  arcs : List (Arc K)

namespace History

def next (h : History K) (step : Step K) : History K :=
  match step.run h.net with
  | .ok _ net => ⟨net, step.added h.arcs⟩
  | .error _ net => ⟨net, step.kept h.arcs⟩

/-- What becomes of a new network in a number of steps. -/
def after (steps : List (Step K)) : History K := steps.foldl next ⟨.empty, []⟩

/-- The network has the arcs that were added, and there is room for its nodes. -/
structure Faithful (h : History K) : Prop where
  lists : h.net.Lists h.arcs
  room : Room.Holds Room.rowBytes h.net.order

end History

section Steps

theorem replace_eq_ok_iff (net : Network K) {result : Except Fault (Network K)} :
    replace result net = .ok () net' ↔ result = .ok net' := by
  cases result <;> simp [replace]

theorem replace_eq_error_iff (net : Network K) {result : Except Fault (Network K)} {f : Fault} :
    replace result net = .error f net' ↔ result = .error f ∧ net = net' := by
  cases result <;> simp [replace]

theorem allocate_eq_ok_iff {order : Nat} : (allocate order : Except Fault (Network K)) = .ok net ↔
    Room.Holds Room.rowBytes order ∧ ofOrder order = net := by
  unfold allocate Room.claim
  split <;> simp [*]

theorem addNode_eq (node : Nat) : addNode node net =
    if net.CanHold node then .ok (net.order ≤ node) (net.growTo node) else .error .noRoom net := rfl

theorem run_addNode (node : Nat) : (Step.addNode node).run net =
    if net.CanHold node then .ok () (net.growTo node) else .error .noRoom net := by
  change EStateM.bind (addNode node) _ net = _
  rw [EStateM.bind, addNode_eq]
  by_cases h : net.CanHold node
  · rw [if_pos h, if_pos h]
    rfl
  · rw [if_neg h, if_neg h]

theorem run_addArc (arc : Arc K) : (Step.addArc arc).run net = replace (net.addArc arc) net := rfl

end Steps

namespace History

variable {h : History K} {f : Fault}

theorem faithful_of_ofArcs (hnet : ofArcs arcs = .ok net) : Faithful ⟨net, arcs⟩ := by
  obtain ⟨hall, rfl⟩ := ofArcs_eq_ok_iff.mp hnet
  exact ⟨(lists_ofOrder 0).foldl_growArc arcs, holds_order_foldl_growArc (Nat.zero_le _) hall⟩

/-- A step that is done leaves the arcs that it should. -/
theorem Faithful.of_run_eq_ok (hh : h.Faithful) {step : Step K}
    (hrun : step.run h.net = .ok () net) : Faithful ⟨net, step.added h.arcs⟩ := by
  cases step with
  | new =>
      obtain rfl := Except.ok.inj ((replace_eq_ok_iff h.net).mp hrun)
      exact ⟨lists_ofOrder 0, Nat.zero_le _⟩
  | allocate order =>
      obtain ⟨hroom, rfl⟩ := allocate_eq_ok_iff.mp ((replace_eq_ok_iff h.net).mp hrun)
      exact ⟨lists_ofOrder order, (order_ofOrder order).symm ▸ hroom⟩
  | addNode node =>
      rw [run_addNode] at hrun
      split at hrun
      next hcan =>
        obtain ⟨-, rfl⟩ := EStateM.Result.ok.inj hrun
        exact ⟨hh.lists.growTo node, holds_order_growTo hh.room ((canHold_iff hh.room).mp hcan)⟩
      next => cases hrun
  | addArc arc =>
      obtain ⟨hends, rfl⟩ := addArc_eq_ok_iff.mp ((replace_eq_ok_iff h.net).mp hrun)
      have hhead : arc.head < h.net.order := Nat.lt_of_le_of_lt (Nat.le_max_right _ _) hends
      exact ⟨hh.lists.insertArc hends hhead, (order_insertArc h.net arc hhead).symm ▸ hh.room⟩
  | addArcs arcs =>
      rw [Step.run, addArcs_eq hh.room] at hrun
      split at hrun
      next hall =>
        obtain ⟨-, rfl⟩ := EStateM.Result.ok.inj hrun
        rw [admitted_eq_self hall]
        exact ⟨hh.lists.foldl_growArc arcs, holds_order_foldl_growArc hh.room hall⟩
      next => cases hrun
  | ofArcs arcs => exact faithful_of_ofArcs ((replace_eq_ok_iff h.net).mp hrun)
  | ofPairs capacity pairs => exact faithful_of_ofArcs ((replace_eq_ok_iff h.net).mp hrun)
  | shrink =>
      obtain ⟨-, rfl⟩ := EStateM.Result.ok.inj hrun
      exact hh

/-- A step that is refused leaves the arcs that it should. -/
theorem Faithful.of_run_eq_error (hh : h.Faithful) {step : Step K}
    (hrun : step.run h.net = .error f net) : Faithful ⟨net, step.kept h.arcs⟩ := by
  cases step with
  | new => cases hrun
  | allocate order =>
      obtain ⟨-, rfl⟩ := (replace_eq_error_iff h.net).mp hrun
      exact hh
  | addNode node =>
      rw [run_addNode] at hrun
      split at hrun
      next => cases hrun
      next =>
        obtain ⟨-, rfl⟩ := EStateM.Result.error.inj hrun
        exact hh
  | addArc arc =>
      obtain ⟨-, rfl⟩ := (replace_eq_error_iff h.net).mp hrun
      exact hh
  -- the only step that may have done something before it is refused
  | addArcs arcs =>
      rw [Step.run, addArcs_eq hh.room] at hrun
      split at hrun
      next => cases hrun
      next =>
        obtain ⟨-, rfl⟩ := EStateM.Result.error.inj hrun
        exact ⟨hh.lists.foldl_growArc _,
          holds_order_foldl_growArc hh.room fun _ => admits_of_mem_admitted⟩
  | ofArcs arcs =>
      obtain ⟨-, rfl⟩ := (replace_eq_error_iff h.net).mp hrun
      exact hh
  | ofPairs capacity pairs =>
      obtain ⟨-, rfl⟩ := (replace_eq_error_iff h.net).mp hrun
      exact hh
  | shrink => cases hrun

theorem Faithful.next (hh : h.Faithful) (step : Step K) : (h.next step).Faithful := by
  unfold History.next
  split
  next hrun => exact hh.of_run_eq_ok hrun
  next hrun => exact hh.of_run_eq_error hrun

theorem faithful_after (steps : List (Step K)) : (after steps).Faithful :=
  List.foldlRecOn steps next ⟨lists_ofOrder 0, Nat.zero_le _⟩ fun _ hh step _ => hh.next step

/-! ## What a network answers -/

theorem addNode_outcome (net : Network K) (node : Nat) :
    match addNode node net with
    | .ok isNew net' => (isNew = true ↔ net.order ≤ node) ∧ net'.order = max net.order (node + 1)
    | .error f net' => f = .noRoom ∧ ¬ Room.Holds Room.rowBytes (node + 1) ∧ net' = net := by
  by_cases h : net.CanHold node
  · rw [addNode_eq, if_pos h]
    exact ⟨decide_eq_true_iff, order_growTo net node⟩
  · rw [addNode_eq, if_neg h]
    exact ⟨rfl, fun hroom => h (Or.inr hroom), rfl⟩

theorem addArc_outcome (net : Network K) (arc : Arc K) :
    match (Step.addArc arc).run net with
    | .ok _ net' => max arc.tail arc.head < net.order ∧ net'.order = net.order
    | .error f net' => f = .missingNode (max arc.tail arc.head) net.order ∧
        net.order ≤ max arc.tail arc.head ∧ net' = net := by
  by_cases h : max arc.tail arc.head < net.order
  · have hrun := (replace_eq_ok_iff net).mpr (addArc_eq_ok_iff.mpr ⟨h, rfl⟩)
    rw [run_addArc, hrun]
    exact ⟨h, order_insertArc net arc _⟩
  · have hadd : net.addArc arc = .error (.missingNode (max arc.tail arc.head) net.order) :=
      dif_neg h
    have hrun := (replace_eq_error_iff net).mpr ⟨hadd, rfl⟩
    rw [run_addArc, hrun]
    exact ⟨rfl, Nat.le_of_not_lt h, rfl⟩

theorem addArcs_outcome (hroom : Room.Holds Room.rowBytes net.order) (arcs : List (Arc K)) :
    match addArcs arcs net with
    | .ok _ net' =>
        (∀ arc ∈ arcs, Admits arc) ∧ net'.order = max net.order (nodesNamed arcs)
    | .error f net' => f = .noRoom ∧ (∃ arc ∈ arcs, ¬ Admits arc) ∧
        net'.order = max net.order (nodesNamed (admitted arcs)) := by
  rw [addArcs_eq hroom]
  by_cases hall : ∀ arc ∈ arcs, Admits arc
  · rw [if_pos hall, admitted_eq_self hall]
    exact ⟨hall, order_foldl_growArc net arcs⟩
  · rw [if_neg hall]
    exact ⟨rfl, by simpa using hall, order_foldl_growArc net (admitted arcs)⟩

theorem allocate_outcome (net : Network K) (order : Nat) :
    match (Step.allocate order).run net with
    | .ok _ net' => Room.Holds Room.rowBytes order ∧ net'.order = order
    | .error f net' => f = .noRoom ∧ ¬ Room.Holds Room.rowBytes order ∧ net' = net := by
  rw [Step.run, allocate]
  by_cases h : Room.Holds Room.rowBytes order
  · rw [Room.claim_eq_ok _ h]
    exact ⟨h, order_ofOrder order⟩
  · rw [Room.claim, if_neg h]
    exact ⟨rfl, h, rfl⟩

theorem ofArcs_outcome (net : Network K) (arcs : List (Arc K)) :
    match (Step.ofArcs arcs).run net with
    | .ok _ net' => (∀ arc ∈ arcs, Admits arc) ∧ net'.order = nodesNamed arcs
    | .error f net' => f = .noRoom ∧ (∃ arc ∈ arcs, ¬ Admits arc) ∧ net' = net := by
  rw [Step.run]
  by_cases hall : ∀ arc ∈ arcs, Admits arc
  · have hnet := ofArcs_eq_ok_iff.mpr ⟨hall, rfl⟩
    rw [hnet]
    exact ⟨hall, order_ofArcs hnet⟩
  · rw [ofArcs_eq, if_neg hall]
    exact ⟨rfl, by simpa using hall, rfl⟩

/-- After any steps, refused ones among them, a network counts its arcs, its heads are nodes, and
each node has the arcs that were added from it since the network was created, in their order. A node
is new if and only if it was not there, an arc between nodes that are not there is refused and
changes nothing, and adding several arcs fails only for lack of room. A network can always be
cleared, and one of some order or of some arcs takes its place if and only if there is room for its
nodes. -/
theorem sound_after (steps : List (Step K)) : ∃ net arcs, after steps = ⟨net, arcs⟩ ∧
    (∀ node < net.order, net.successors node = .ok (departing arcs node) ∧
      net.outdegree node = .ok (departing arcs node).length ∧
      ∀ a ∈ departing arcs node, a.1 < net.order) ∧
    net.arcCount = ∑ node ∈ Finset.range net.order, (departing arcs node).length ∧
    (∀ node, match addNode node net with
      | .ok isNew net' =>
          (isNew = true ↔ net.order ≤ node) ∧ net'.order = max net.order (node + 1)
      | .error f net' => f = .noRoom ∧ ¬ Room.Holds Room.rowBytes (node + 1) ∧ net' = net) ∧
    (∀ arc, match (Step.addArc arc).run net with
      | .ok _ net' => max arc.tail arc.head < net.order ∧ net'.order = net.order
      | .error f net' => f = .missingNode (max arc.tail arc.head) net.order ∧
          net.order ≤ max arc.tail arc.head ∧ net' = net) ∧
    (∀ arcs, match addArcs arcs net with
      | .ok _ net' =>
          (∀ arc ∈ arcs, Admits arc) ∧ net'.order = max net.order (nodesNamed arcs)
      | .error f net' => f = .noRoom ∧ (∃ arc ∈ arcs, ¬ Admits arc) ∧
          net'.order = max net.order (nodesNamed (admitted arcs))) ∧
    (∀ order, match (Step.allocate order).run net with
      | .ok _ net' => Room.Holds Room.rowBytes order ∧ net'.order = order
      | .error f net' => f = .noRoom ∧ ¬ Room.Holds Room.rowBytes order ∧ net' = net) ∧
    (∀ arcs, match (Step.ofArcs arcs).run net with
      | .ok _ net' => (∀ arc ∈ arcs, Admits arc) ∧ net'.order = nodesNamed arcs
      | .error f net' => f = .noRoom ∧ (∃ arc ∈ arcs, ¬ Admits arc) ∧ net' = net) ∧
    (∀ capacity pairs, (Step.ofPairs capacity pairs).run net =
      (Step.ofArcs (pairs.map fun p => ⟨p.1, p.2, capacity⟩)).run net) ∧
    (∃ net', Step.new.run net = .ok () net' ∧ net'.order = 0) ∧
    Step.shrink.run net = .ok () net := by
  obtain ⟨hlists, hroom⟩ := faithful_after steps
  refine ⟨(after steps).net, (after steps).arcs, rfl, fun node hnode => ?_, ?_,
    addNode_outcome _, addArc_outcome _, addArcs_outcome hroom, allocate_outcome _,
    ofArcs_outcome _, fun _ _ => rfl, ⟨_, rfl, order_ofOrder 0⟩, rfl⟩
  · have hrow := hlists.successors_eq node hnode
    refine ⟨hrow, ?_, fun a ha => ?_⟩
    · rw [outdegree, hrow]
      rfl
    · obtain ⟨arc, harc, -, rfl⟩ := mem_departing_iff.mp ha
      exact Nat.lt_of_le_of_lt (Nat.le_max_right _ _) (hlists.ends_lt arc harc)
  · exact hlists.arcCount_eq.trans hlists.length_eq_sum

/-- An arc to a node that is not there changes nothing. -/
example : (after [.allocate 2, .addArc ⟨0, 1, 7⟩, .addArc ⟨0, 2, 5⟩, .addNode 3,
    .addArcs [⟨3, 0, 4⟩, ⟨0, 1, 2⟩]]).net.rows = #[#[(1, 7), (1, 2)], #[], #[], #[(0, 4)]] := by
  decide

end History

end PushRelabel.Network
