import PushRelabel.Proofs.FlowGraph.Meaning
import PushRelabel.Proofs.FlowGraph.Verdict

/-! # How arcs are listed

The arcs that leave a node have consecutive numbers, node after node, and the arcs that enter it are
listed by number. So each arc is seen exactly twice, from its tail and from its head, and both views
are of the same amount: what can be sent one way from one end can be sent back from the other.
-/

namespace PushRelabel

namespace FlowGraph

variable {K : Type} (g : FlowGraph K)

/-- Where the arcs that leave a node lead, and their capacities. -/
def row (v : g.Node) : List (g.Node × K) :=
  (g.leaving v).map fun d => (d.other, g.arcs[d.arc].capacity)

/-- Each arc is listed once where it leaves and once where it enters, with its other end. The arcs
that leave the nodes are numbered node after node. -/
structure Paired : Prop where
  leaving_filter : ∀ (i : Fin g.arcCount) (v : g.Node),
    ((g.leaving v).filter fun d => d.arc = i) =
      if v = g.arcs[i].tail then [⟨g.arcs[i].head, i, false⟩] else []
  entering_filter : ∀ (i : Fin g.arcCount) (v : g.Node),
    ((g.entering v).filter fun d => d.arc = i) =
      if v = g.arcs[i].head then [⟨g.arcs[i].tail, i, true⟩] else []
  sum_degree : ∑ v, g.degree v = 2 * g.arcCount
  numbered : ((List.finRange g.nodeCount).flatMap fun v => (g.leaving v).map fun d => d.arc) =
    List.finRange g.arcCount
  ascending : ∀ v, ((g.entering v).map fun d => d.arc).Pairwise (· < ·)

theorem row_ofRows {order networkArcs : Nat} {splits : Array (Fin order)}
    {rows : Vector (List (Link (order + 2 + splits.size) K)) (order + 2 + splits.size)}
    (htail : ∀ v : Fin (order + 2 + splits.size), ∀ a ∈ rows[v], a.tail = v)
    (v : Fin (order + 2 + splits.size)) :
    (ofRows order networkArcs splits rows htail).row v =
      rows[v].map fun a => (a.head, a.capacity) := by
  have hentries := congrArg (List.map fun a => (a.head, a.capacity)) (Offsets.map_row_ofRows rows v)
  rw [List.map_map] at hentries
  exact List.map_map.trans hentries

variable {g}

theorem sum_card_filter_eq {m n : Nat} (f : Fin m → Fin n) :
    ∑ v, ((List.finRange m).filter fun i => f i = v).length = m := by
  have hlength : ∀ v, ((List.finRange m).filter fun i => f i = v).length =
      (Finset.univ.filter fun i => f i = v).card := fun v => rfl
  simp only [hlength]
  rw [← Finset.card_eq_sum_card_fiberwise fun i _ => Finset.mem_coe.mpr (Finset.mem_univ (f i)),
    Finset.card_univ, Fintype.card_fin]

theorem sum_degree (g : FlowGraph K) : ∑ v, g.degree v = 2 * g.arcCount := by
  simp only [degree, darts, leaving_eq, entering_eq, List.length_append, List.length_map,
    Finset.sum_add_distrib, sum_card_filter_eq]
  omega

theorem filter_arc_eq {f : Fin g.arcCount → g.Node} {dart : Fin g.arcCount → g.DartOf}
    (hdart : ∀ i, (dart i).arc = i) (i : Fin g.arcCount) (v : g.Node) :
    ((((List.finRange g.arcCount).filter fun i => f i = v).map dart).filter fun d => d.arc = i) =
      if v = f i then [dart i] else [] := by
  have hone : ((List.finRange g.arcCount).filter fun j => j = i) = [i] := by
    rw [List.filter_eq, List.count_eq_one_of_mem (List.nodup_finRange _) (List.mem_finRange i)]
    rfl
  have hcomm : (((List.finRange g.arcCount).filter fun j => f j = v).filter fun j => j = i) =
      ((List.finRange g.arcCount).filter fun j => j = i).filter fun j => f j = v := by
    simp only [List.filter_filter, Bool.and_comm]
  rw [List.filter_map]
  simp only [Function.comp_def, hdart]
  rw [hcomm, hone]
  by_cases hv : v = f i
  · simp [hv]
  · simp [hv, Ne.symm hv]

theorem paired (g : FlowGraph K) : g.Paired where
  leaving_filter i v := by
    rw [leaving_eq]
    exact filter_arc_eq (fun _ => rfl) i v
  entering_filter i v := by
    rw [entering_eq]
    exact filter_arc_eq (fun _ => rfl) i v
  sum_degree := g.sum_degree
  numbered := by
    rw [← g.outgoing.flatMap_row]
    refine List.flatMap_congr fun v _ => ?_
    rw [leaving, List.map_map]
    exact List.map_id _
  ascending v := by
    rw [entering_eq, List.map_map]
    exact ((List.sortedLT_finRange _).pairwise.filter _).map _ fun _ _ h => h

/-! ## Two views of an arc -/

/-- A dart of a node as it is seen from its other end. -/
def opposite (v : g.Node) (d : g.DartOf) : g.DartOf := ⟨v, d.arc, !d.reversed⟩

end FlowGraph

/-- Sums are not rounded. -/
structure Quantity.Unrounded (K : Type) [Quantity K] : Prop where
  sub_add : ∀ a b c : K, a - (b + c) = a - b - c
  add_neg : ∀ a b : K, a + -b = a - b
  sub_sub : ∀ a b c : K, a - (b - c) = a - b + c

theorem Quantity.unrounded_exact {K : Type} [AddCommGroup K] [LinearOrder K] :
    Quantity.Unrounded K where
  sub_add := sub_add_eq_sub_sub
  add_neg a b := (sub_eq_add_neg a b).symm
  sub_sub a b c := (sub_add a b c).symm

namespace FlowGraph

variable {K : Type} [Quantity K] (g : FlowGraph K)

/-- What a push does to an arc. One number changes, from which both views are computed: what can be
sent back grows by the amount, and what can be sent on shrinks by it. -/
structure Pushes (flow : g.Flow) (d : g.DartOf) (amount : K) : Prop where
  elsewhere : ∀ i : Fin g.arcCount, i ≠ d.arc → (g.push flow d amount)[i] = flow[i]
  forward : d.reversed = false →
    g.reverseResidual (g.push flow d amount) d = g.reverseResidual flow d + amount ∧
      g.residual (g.push flow d amount) d =
        g.arcs[d.arc].capacity - (g.reverseResidual flow d + amount)
  reversed : d.reversed = true →
    g.residual (g.push flow d amount) d = g.residual flow d + -amount ∧
      g.reverseResidual (g.push flow d amount) d =
        g.arcs[d.arc].capacity - (g.residual flow d + -amount)
  exact : Quantity.Unrounded K →
    g.residual (g.push flow d amount) d = g.residual flow d - amount ∧
      g.reverseResidual (g.push flow d amount) d = g.reverseResidual flow d + amount

/-- Both ends of an arc see the same. -/
structure Agrees : Prop where
  opposite_mem : ∀ v, ∀ d ∈ g.darts v, g.opposite v d ∈ g.darts d.other
  residual_eq : ∀ (v : g.Node) (d : g.DartOf) (flow : g.Flow),
    g.residual flow d = g.reverseResidual flow (g.opposite v d) ∧
      g.reverseResidual flow d = g.residual flow (g.opposite v d)
  pushes : ∀ (flow : g.Flow) (d : g.DartOf) (amount : K), g.Pushes flow d amount

theorem pushes (flow : g.Flow) (d : g.DartOf) (amount : K) : g.Pushes flow d amount := by
  have hslots : ∀ i : Fin g.arcCount, (g.push flow d amount)[i] =
      if i = d.arc then flow[d.arc] + (if d.reversed then -amount else amount) else flow[i] :=
    fun i => Vector.getElem_put _ _ _ _
  refine ⟨fun i hi => by rw [hslots, if_neg hi], fun hd => ?_, fun hd => ?_, fun hexact => ?_⟩
  · simp [residual, reverseResidual, hslots, hd]
  · simp [residual, reverseResidual, hslots, hd]
  · cases hd : d.reversed with
    | false => simp [residual, reverseResidual, hslots, hd, hexact.sub_add]
    | true => simp [residual, reverseResidual, hslots, hd, hexact.add_neg, hexact.sub_sub]

theorem agrees : g.Agrees where
  opposite_mem v d hd := by
    obtain ⟨e, he, hother, harc, hreversed⟩ := g.exists_opposite hd
    rcases e with ⟨other, i, reversed⟩
    obtain rfl : other = v := hother
    obtain rfl : i = d.arc := harc
    obtain rfl : reversed = !d.reversed := hreversed
    exact he
  residual_eq v d flow := by
    have htwice : d.reversed = !(g.opposite v d).reversed := (Bool.not_not _).symm
    have hforth : g.reverseResidual flow (g.opposite v d) = g.residual flow d :=
      reverseResidual_eq_residual rfl rfl
    have hback : g.reverseResidual flow d = g.residual flow (g.opposite v d) :=
      reverseResidual_eq_residual rfl htwice
    exact ⟨hforth.symm, hback⟩
  pushes := g.pushes

end FlowGraph

/-! ## The arcs of each node -/

/-- The terminals that were found, in the order in which they were given, each with its capacity or
with its own one. -/
def Terminals.Located {K : Type} {n : Nat} (own : Fin n → K) :
    Terminals K → List (Fin n × K) → Prop
  | list ids, located => located.map (fun t => t.1.val) = ids ∧ ∀ t ∈ located, t.2 = own t.1
  | map entries, located => located.map (fun t => (t.1.val, t.2)) = entries

namespace Problem

variable {K : Type} [Quantity K] {p : Problem K} {c : Checked p.network}

/-- The heads of the arcs that leave a node of the network, without loops, and their capacities. -/
def successors (p : Problem K) (v : Fin p.network.order) : List (p.Node × K) :=
  (p.network.proper v).map fun a => (p.inner a.1, a.2)

/-- The arcs that leave each node, in the order of the input. -/
structure ListsArcs (p : Problem K) (c : Checked p.network) : Prop where
  sources : p.sources.Located p.network.outCapacity c.sources
  targets : p.targets.Located (fun v => p.network.inCapacities[v]) c.targets
  unlimited : ∀ v, p.limits[v] = none →
    p.exit v = p.inner v ∧ (p.assemble c).row (p.inner v) = p.successors v
  limited : ∀ v limit, p.limits[v] = some limit → ∃ k, p.origin k = v ∧
    p.exit v = p.splitNode k ∧ (p.assemble c).row (p.inner v) = [(p.splitNode k, limit)]
  split : ∀ k : Fin p.splits.size,
    (p.assemble c).row (p.splitNode k) = p.successors (p.origin k)
  superSource : (p.assemble c).row p.superSource = c.sources.map fun s => (p.inner s.1, s.2)
  superTarget : (p.assemble c).row p.superTarget = c.targets.map fun t => (p.exit t.1, t.2)

end Problem

namespace Problem

section Rows

variable {K : Type} {p : Problem K} {c : Checked p.network}

theorem rows_inner (v : Fin p.network.order) : (p.rows c)[p.inner v] = p.innerArcs v := by
  simp [rows, inner]

theorem rows_superSource : (p.rows c)[p.superSource] = p.sourceArcs c := by
  simp [rows, superSource]

theorem rows_superTarget : (p.rows c)[p.superTarget] = p.targetArcs c := by
  simp [rows, superTarget]

theorem rows_splitNode (k : Fin p.splits.size) : (p.rows c)[p.splitNode k] = p.splitArcs k := by
  have hterminal : p.network.order + 2 ≤ (p.splitNode k).val := Nat.le_add_right _ _
  rw [rows, Vector.getElem_fin, Vector.getElem_append_right _ hterminal]
  simp [splitNode]

theorem row_assemble (v : p.Node) :
    (p.assemble c).row v = (p.rows c)[v].map fun a => (a.head, a.capacity) :=
  FlowGraph.row_ofRows (tail_of_mem_rows c) v

theorem map_arcsFrom (tail : p.Node) (v : Fin p.network.order) :
    ((p.arcsFrom tail v).map fun a => (a.head, a.capacity)) = p.successors v := by
  rw [arcsFrom, List.map_map]
  rfl

end Rows

variable {K : Type} [Quantity K] {p : Problem K} {c : Checked p.network}

theorem located_of_locateAll {net : Network K} {own : Fin net.order → K} {terminals : Terminals K}
    {located : List (Fin net.order × K)} (h : locateAll net own terminals = .ok located) :
    terminals.Located own located := by
  cases terminals with
  | list ids =>
      refine ⟨map_val_of_locateAll h, fun t ht => ?_⟩
      obtain ⟨id, -, heq⟩ := (exists_of_forall₂ (forall₂_of_mapM h)).2 t ht
      obtain ⟨v, -, rfl⟩ := except_map_eq_ok_iff.mp heq
      rfl
  | map entries =>
      refine (map_eq_map_of_forall₂ ((forall₂_of_mapM h).imp fun entry t ht => ?_)).symm.trans
        (List.map_id entries)
      exact (locateEntry_eq_ok_iff.mp ht).2

theorem listsArcs_assemble (h : p.Accepted c) : p.ListsArcs c where
  sources := located_of_locateAll h.sources
  targets := located_of_locateAll h.targets
  unlimited v hlimit := by
    refine ⟨exit_of_unlimited hlimit, ?_⟩
    rw [row_assemble, rows_inner, innerArcs, hlimit, map_arcsFrom]
  limited v limit hlimit := by
    obtain ⟨k, rfl⟩ := exists_split hlimit
    refine ⟨k, rfl, exit_splits k, ?_⟩
    rw [row_assemble, rows_inner, innerArcs, hlimit, exit_splits]
    rfl
  split k := by rw [row_assemble, rows_splitNode, splitArcs, map_arcsFrom]
  superSource := by
    rw [row_assemble, rows_superSource, sourceArcs, List.map_map]
    rfl
  superTarget := by
    rw [row_assemble, rows_superTarget, targetArcs, List.map_map]
    rfl

/-- The arcs that leave a node are those that the input has for it, in order. Each arc is listed
once where it leaves and once where it enters, no arc is a loop, and for every flow both ends of an
arc see the same. -/
theorem faithful_of_build {g : FlowGraph K} (hbuild : p.build = .ok g) :
    (∃ c, p.assemble c = g ∧ p.ListsArcs c) ∧ g.Paired ∧
      (∀ i : Fin g.arcCount, g.arcs[i].tail ≠ g.arcs[i].head) ∧ g.Agrees := by
  obtain ⟨c, hcheck, rfl⟩ := except_map_eq_ok_iff.mp hbuild
  refine ⟨⟨c, rfl, listsArcs_assemble (accepted_of_check hcheck)⟩, FlowGraph.paired _,
    fun i => ?_, FlowGraph.agrees _⟩
  rw [Role.getElem_arcs]
  exact Role.tail_ne_head _

theorem faithful_bottleneck : ∃ g, bottleneck.build = .ok g ∧ Quantity.Unrounded ℤ ∧
    (∃ c, bottleneck.assemble c = g ∧ bottleneck.ListsArcs c) ∧ g.Paired ∧
      (∀ i : Fin g.arcCount, g.arcs[i].tail ≠ g.arcs[i].head) ∧ g.Agrees := by
  obtain ⟨g, hbuild⟩ := bottleneck_build
  exact ⟨g, hbuild, Quantity.unrounded_exact, faithful_of_build hbuild⟩

end Problem

end PushRelabel
