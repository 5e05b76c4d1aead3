import PushRelabel.Distance
import PushRelabel.Proofs.Flow.Paths
import PushRelabel.Proofs.Success

/-! # Labels found by a search

A search visits the nodes layer by layer. While it does, each node that was found is
waiting to be visited or has looked at its neighbours, which are at most one layer
further away, and can send to a node that is one layer nearer. When nothing is waiting,
the labels are the exact distances.
-/

namespace PushRelabel.Search

variable {K : Type} [Quantity K] {g : FlowGraph K} {flow : g.Flow} {source sink : g.Node}
  {distance : Nat} {pending : List g.Node}

/-- Whoever can send to a node is at most one layer further away. -/
def Explored (flow : g.Flow) (source : g.Node) (p : Progress g.nodeCount) (v : g.Node) : Prop :=
  ∀ d ∈ g.darts v, 0 < g.reverseResidual flow d →
    d.other = source ∨ p.labels[d.other] ≤ p.labels[v] + 1

/-- The search is in the layer at a distance, of which some nodes are not visited yet. -/
structure InLayer (flow : g.Flow) (source sink : g.Node) (distance : Nat) (pending : List g.Node)
    (p : Progress g.nodeCount) : Prop where
  distance_lt : distance < g.nodeCount
  source_eq : p.labels[source] = g.nodeCount
  sink_eq : p.labels[sink] = 0
  source_found : p.found[source] = true
  sink_found : p.found[sink] = true
  not_found : ∀ v : g.Node, p.found[v] = false → p.labels[v] = g.nodeCount
  label_le : ∀ v : g.Node, v ≠ source → p.found[v] = true → p.labels[v] ≤ distance + 1
  pending_eq : ∀ v ∈ pending, p.labels[v] = distance ∧ p.found[v] = true
  next_eq : ∀ v ∈ p.next, p.labels[v] = distance + 1 ∧ p.found[v] = true
  nearer : ∀ v : g.Node, v ≠ sink → p.labels[v] < g.nodeCount →
    ∃ d ∈ g.darts v, 0 < g.residual flow d ∧ p.labels[d.other] + 1 = p.labels[v]
  explored : ∀ v : g.Node, v ≠ source → p.found[v] = true →
    v ∈ pending ∨ v ∈ p.next ∨ Explored flow source p v

/-- One node is found: it is new, and its label is the distance of the next layer. -/
structure Finds (distance : Nat) (u : g.Node) (p q : Progress g.nodeCount) : Prop where
  not_found : p.found[u] = false
  label_eq : q.labels[u] = distance
  found_eq : q.found[u] = true
  labels_eq : ∀ v : g.Node, v ≠ u → q.labels[v] = p.labels[v]
  founds_eq : ∀ v : g.Node, v ≠ u → q.found[v] = p.found[v]
  mem_next : ∀ v : g.Node, v ∈ q.next ↔ v ∈ p.next ∨ v = u

namespace Finds

variable {u v : g.Node} {p q : Progress g.nodeCount}

omit [Quantity K]

theorem ne_of_found (h : Finds distance u p q) (hv : p.found[v] = true) : v ≠ u := by
  rintro rfl
  exact Bool.false_ne_true (h.not_found.symm.trans hv)

theorem label_of_found (h : Finds distance u p q) (hv : p.found[v] = true) :
    q.labels[v] = p.labels[v] :=
  h.labels_eq v (h.ne_of_found hv)

theorem found_of_found (h : Finds distance u p q) (hv : p.found[v] = true) : q.found[v] = true :=
  (h.founds_eq v (h.ne_of_found hv)).trans hv

theorem eq_or_found (h : Finds distance u p q) (hv : q.found[v] = true) :
    v = u ∨ p.found[v] = true := by
  by_cases heq : v = u
  · exact Or.inl heq
  · exact Or.inr ((h.founds_eq v heq).symm.trans hv)

end Finds

/-- A dart finds the node at its other side or does nothing. -/
theorem visitDart_eq_or_finds (flow : g.Flow) (distance : Nat) (p : Progress g.nodeCount)
    (d : g.DartOf) :
    visitDart g flow distance p d = p ∨
      0 < g.reverseResidual flow d ∧ Finds distance d.other p (visitDart g flow distance p d) := by
  unfold visitDart
  split
  next hnew =>
    refine Or.inr ⟨hnew.1, hnew.2, Vector.getElem_set_self _, Vector.getElem_set_self _,
      fun v hv => ?_, fun v hv => ?_, fun v => Array.mem_push⟩
    · exact (Vector.getElem_put _ _ _ _).trans (if_neg hv)
    · exact (Vector.getElem_put _ _ _ _).trans (if_neg hv)
  next => exact Or.inl rfl

namespace InLayer

variable {p q : Progress g.nodeCount} {u v : g.Node} {d : g.DartOf}

theorem le_nodeCount (h : InLayer flow source sink distance pending p) (v : g.Node) :
    p.labels[v] ≤ g.nodeCount := by
  by_cases hsource : v = source
  · simpa only [hsource] using h.source_eq.le
  · cases hfound : p.found[v] with
    | true => exact (h.label_le v hsource hfound).trans h.distance_lt
    | false => exact (h.not_found v hfound).le

theorem found_of_label_lt (h : InLayer flow source sink distance pending p)
    (hlt : p.labels[v] < g.nodeCount) : p.found[v] = true := by
  by_contra hnot
  exact hlt.ne (h.not_found v (Bool.eq_false_iff.mpr hnot))

theorem label_le_of_finds (h : InLayer flow source sink distance pending p)
    (hfinds : Finds (distance + 1) u p q) (v : g.Node) : q.labels[v] ≤ p.labels[v] := by
  by_cases hv : v = u
  · rw [hv, hfinds.label_eq, h.not_found u hfinds.not_found]
    exact h.distance_lt
  · exact (hfinds.labels_eq v hv).le

/-- The node that was found can send back to the one from which it was found. -/
theorem nearer_of_finds (h : InLayer flow source sink distance pending p) (hu : u ∈ pending)
    (hd : d ∈ g.darts u) (hresidual : 0 < g.reverseResidual flow d)
    (hfinds : Finds (distance + 1) d.other p q) (hsink : v ≠ sink)
    (hlt : q.labels[v] < g.nodeCount) :
    ∃ e ∈ g.darts v, 0 < g.residual flow e ∧ q.labels[e.other] + 1 = q.labels[v] := by
  by_cases hv : v = d.other
  · subst hv
    obtain ⟨e, he, hother, harc, hreversed⟩ := g.exists_opposite hd
    obtain ⟨hlabel, hfound⟩ := h.pending_eq u hu
    have hopposite : g.reverseResidual flow d = g.residual flow e :=
      FlowGraph.reverseResidual_eq_residual harc.symm (by rw [hreversed, Bool.not_not])
    refine ⟨e, he, hopposite ▸ hresidual, ?_⟩
    simp only [hother]
    rw [hfinds.label_of_found hfound, hlabel, hfinds.label_eq]
  · rw [hfinds.labels_eq v hv] at hlt ⊢
    obtain ⟨e, he, hpos, hnearer⟩ := h.nearer v hsink hlt
    have hfound : p.found[e.other] = true := h.found_of_label_lt (by omega)
    refine ⟨e, he, hpos, ?_⟩
    rw [hfinds.label_of_found hfound]
    exact hnearer

/-- The node that was found waits in the next layer. -/
theorem explored_of_finds (h : InLayer flow source sink distance pending p)
    (hfinds : Finds (distance + 1) u p q) (hsource : v ≠ source) (hfound : q.found[v] = true) :
    v ∈ pending ∨ v ∈ q.next ∨ Explored flow source q v := by
  rcases hfinds.eq_or_found hfound with hv | hfound
  · exact Or.inr (Or.inl ((hfinds.mem_next v).mpr (Or.inr hv)))
  · refine (h.explored v hsource hfound).imp_right fun hrest => ?_
    refine hrest.imp (fun hmem => (hfinds.mem_next v).mpr (Or.inl hmem)) fun hexplored => ?_
    intro e he hpos
    refine (hexplored e he hpos).imp_right fun hle => ?_
    rw [hfinds.label_of_found hfound]
    exact (h.label_le_of_finds hfinds e.other).trans hle

theorem finds (h : InLayer flow source sink distance pending p) (hu : u ∈ pending)
    (hd : d ∈ g.darts u) (hresidual : 0 < g.reverseResidual flow d)
    (hfinds : Finds (distance + 1) d.other p q) : InLayer flow source sink distance pending q where
  distance_lt := h.distance_lt
  source_eq := (hfinds.label_of_found h.source_found).trans h.source_eq
  sink_eq := (hfinds.label_of_found h.sink_found).trans h.sink_eq
  source_found := hfinds.found_of_found h.source_found
  sink_found := hfinds.found_of_found h.sink_found
  not_found v hv := by
    have hne : v ≠ d.other := by
      rintro rfl
      exact Bool.false_ne_true (hv.symm.trans hfinds.found_eq)
    rw [hfinds.labels_eq v hne]
    exact h.not_found v ((hfinds.founds_eq v hne).symm.trans hv)
  label_le v hsource hfound := by
    rcases hfinds.eq_or_found hfound with rfl | hfound
    · exact hfinds.label_eq.le
    · rw [hfinds.label_of_found hfound]
      exact h.label_le v hsource hfound
  pending_eq v hv := by
    obtain ⟨hlabel, hfound⟩ := h.pending_eq v hv
    exact ⟨(hfinds.label_of_found hfound).trans hlabel, hfinds.found_of_found hfound⟩
  next_eq v hv := by
    rcases (hfinds.mem_next v).mp hv with hv | rfl
    · obtain ⟨hlabel, hfound⟩ := h.next_eq v hv
      exact ⟨(hfinds.label_of_found hfound).trans hlabel, hfinds.found_of_found hfound⟩
    · exact ⟨hfinds.label_eq, hfinds.found_eq⟩
  nearer _ hsink hlt := h.nearer_of_finds hu hd hresidual hfinds hsink hlt
  explored _ hsource hfound := h.explored_of_finds hfinds hsource hfound

theorem visitDart (h : InLayer flow source sink distance pending p) (hu : u ∈ pending)
    (hd : d ∈ g.darts u) :
    InLayer flow source sink distance pending (Search.visitDart g flow (distance + 1) p d) := by
  rcases visitDart_eq_or_finds flow (distance + 1) p d with heq | ⟨hresidual, hfinds⟩
  · rw [heq]
    exact h
  · exact h.finds hu hd hresidual hfinds

theorem foldl_visitDart (h : InLayer flow source sink distance pending p) {u : g.Node}
    (hu : u ∈ pending) {ds : List g.DartOf} (hds : ∀ d ∈ ds, d ∈ g.darts u) :
    InLayer flow source sink distance pending
      (ds.foldl (Search.visitDart g flow (distance + 1)) p) := by
  induction ds generalizing p with
  | nil => exact h
  | cons d ds ih =>
      exact ih (h.visitDart hu (hds d List.mem_cons_self))
        fun e he => hds e (List.mem_cons_of_mem d he)

end InLayer

theorem found_visitDart_of_found {p : Progress g.nodeCount} {v : g.Node}
    (h : p.found[v] = true) (d : g.DartOf) :
    (visitDart g flow (distance + 1) p d).found[v] = true := by
  rcases visitDart_eq_or_finds flow (distance + 1) p d with heq | ⟨-, hfinds⟩
  · rw [heq]
    exact h
  · exact hfinds.found_of_found h

theorem found_foldl_visitDart_of_found {p : Progress g.nodeCount} {v : g.Node}
    (h : p.found[v] = true) (ds : List g.DartOf) :
    (ds.foldl (visitDart g flow (distance + 1)) p).found[v] = true := by
  induction ds generalizing p with
  | nil => exact h
  | cons d ds ih => exact ih (found_visitDart_of_found h d)

theorem found_foldl_visitDart_of_mem (p : Progress g.nodeCount) {ds : List g.DartOf}
    {d : g.DartOf} (hd : d ∈ ds) (hresidual : 0 < g.reverseResidual flow d) :
    (ds.foldl (visitDart g flow (distance + 1)) p).found[d.other] = true := by
  induction ds generalizing p with
  | nil => simp at hd
  | cons e ds ih =>
      rcases List.mem_cons.mp hd with rfl | hd
      · refine found_foldl_visitDart_of_found ?_ ds
        unfold visitDart
        split
        next => simp
        next hnot => simpa [hresidual] using hnot
      · exact ih _ hd

namespace InLayer

variable {p : Progress g.nodeCount}

theorem visitNode {v : g.Node} (h : InLayer flow source sink distance (v :: pending) p) :
    InLayer flow source sink distance pending (Search.visitNode g flow (distance + 1) v p) := by
  have hdone : InLayer flow source sink distance (v :: pending)
      (Search.visitNode g flow (distance + 1) v p) :=
    h.foldl_visitDart List.mem_cons_self fun _ hd => hd
  have hexplored : Explored flow source (Search.visitNode g flow (distance + 1) v p) v := by
    intro d hd hresidual
    by_cases hsource : d.other = source
    · exact Or.inl hsource
    · right
      rw [(hdone.pending_eq v List.mem_cons_self).1]
      exact hdone.label_le d.other hsource (found_foldl_visitDart_of_mem p hd hresidual)
  refine { hdone with
    pending_eq := fun u hu => hdone.pending_eq u (List.mem_cons_of_mem v hu)
    explored := fun u hu hfound => ?_ }
  rcases hdone.explored u hu hfound with hmem | hrest
  · rcases List.mem_cons.mp hmem with rfl | hmem
    · exact Or.inr (Or.inr hexplored)
    · exact Or.inl hmem
  · exact Or.inr hrest

/-- Visiting some nodes of a layer leaves the other ones pending. -/
theorem foldl_visitNode_append (vs : List g.Node)
    (h : InLayer flow source sink distance (vs ++ pending) p) :
    InLayer flow source sink distance pending
      (vs.foldl (fun p v => Search.visitNode g flow (distance + 1) v p) p) := by
  induction vs generalizing p with
  | nil => exact h
  | cons v vs ih => exact ih h.visitNode

theorem foldl_visitNode (h : InLayer flow source sink distance pending p) :
    InLayer flow source sink distance []
      (pending.foldl (fun p v => Search.visitNode g flow (distance + 1) v p) p) := by
  rw [← List.append_nil pending] at h
  exact h.foldl_visitNode_append pending

theorem nextLayer (h : InLayer flow source sink distance [] p)
    (hdistance : distance + 1 < g.nodeCount) :
    InLayer flow source sink (distance + 1) p.next.toList { p with next := #[] } := by
  refine { h with
    distance_lt := hdistance
    label_le := fun v hv hfound => (h.label_le v hv hfound).trans (Nat.le_succ _)
    pending_eq := fun v hv => h.next_eq v (Array.mem_toList_iff.mp hv)
    next_eq := fun v hv => absurd hv (Array.not_mem_empty v)
    explored := fun v hv hfound => ?_ }
  rcases h.explored v hv hfound with hmem | hmem | hexplored
  · exact absurd hmem List.not_mem_nil
  · exact Or.inl (Array.mem_toList_iff.mpr hmem)
  · exact Or.inr (Or.inr hexplored)

/-- When nothing waits to be visited, each node has looked at its neighbours. -/
theorem exactLabels (h : InLayer flow source sink distance [] p) (hnext : p.next = #[]) :
    g.ExactLabels flow p.labels source sink := by
  refine ⟨⟨h.sink_eq, h.source_eq, h.le_nodeCount, fun u hu d hd hresidual => ?_⟩, h.nearer⟩
  have hle := h.le_nodeCount u
  by_cases hsource : d.other = source
  · have heq := h.source_eq
    simp only [hsource, heq]
    omega
  · cases hfound : p.found[d.other] with
    | false =>
        rw [h.not_found d.other hfound]
        omega
    | true =>
        obtain ⟨e, he, hother, harc, hreversed⟩ := g.exists_opposite hd
        -- the other end has been visited, and has looked at the opposite of the dart
        rcases h.explored d.other hsource hfound with hmem | hmem | hexplored
        · exact absurd hmem List.not_mem_nil
        · rw [hnext] at hmem
          exact absurd hmem (Array.not_mem_empty _)
        · have hreverse : g.reverseResidual flow e = g.residual flow d :=
            FlowGraph.reverseResidual_eq_residual harc hreversed
          rcases hexplored e he (hreverse ▸ hresidual) with hend | hend
          · exact absurd (hother.symm.trans hend) hu
          · simpa only [hother] using hend

end InLayer

theorem inLayer_start (hne : source ≠ sink) :
    InLayer flow source sink 0 [sink] (start g source sink) := by
  have hlabel : ∀ v : g.Node,
      (start g source sink).labels[v] = if v = sink then 0 else g.nodeCount := by
    intro v
    exact (Vector.getElem_put _ _ _ _).trans (by rw [Vector.getElem_replicate_fin])
  have hfound : ∀ v : g.Node,
      (start g source sink).found[v] = true ↔ v = sink ∨ v = source := by
    intro v
    rw [start, Vector.getElem_put, Vector.getElem_put]
    split <;> simp_all
  refine ⟨Fin.pos sink, ?_, ?_, ?_, ?_, ?_, ?_, ?_, ?_, ?_, ?_⟩
  · rw [hlabel, if_neg hne]
  · rw [hlabel, if_pos rfl]
  · exact (hfound source).mpr (Or.inr rfl)
  · exact (hfound sink).mpr (Or.inl rfl)
  · intro v hv
    rw [hlabel, if_neg]
    intro heq
    rw [(hfound v).mpr (Or.inl heq)] at hv
    exact Bool.noConfusion hv
  · intro v hsource hv
    rw [hlabel, if_pos (((hfound v).mp hv).resolve_right hsource)]
    exact Nat.zero_le _
  · intro v hv
    obtain rfl := List.mem_singleton.mp hv
    exact ⟨by rw [hlabel, if_pos rfl], (hfound v).mpr (Or.inl rfl)⟩
  · intro v hv
    exact absurd hv (Array.not_mem_empty v)
  · intro v hsink hv
    rw [hlabel, if_neg hsink] at hv
    exact absurd hv (lt_irrefl _)
  · intro v hsource hv
    exact Or.inl (List.mem_singleton.mpr (((hfound v).mp hv).resolve_right hsource))

omit [Quantity K] in
theorem nextLayer_eq_ok {w w' : WorkingSet g.Node} {p p' : Progress g.nodeCount} {u : Unit}
    (h : nextLayer g (w, p) = .ok u (w', p')) :
    w'.Lists p.next.toList ∧ w'.capacity = w.capacity ∧ p' = { p with next := #[] } := by
  unfold nextLayer at h
  rw [get_bind, modify_bind] at h
  obtain ⟨hpush, rfl⟩ := onSet_eq_ok_iff.mp h
  obtain ⟨hlists, hcapacity⟩ := WorkingSet.lists_of_pushAll hpush
  exact ⟨hlists, hcapacity, rfl⟩

/-- The nodes of a layer are visited, and the search goes on with the nodes that were found, if
there are any. -/
theorem explore_eq_ok {batch : Nat} {running : Bool} {fuel largest : Nat}
    {w w' : WorkingSet g.Node} {p p' : Progress g.nodeCount} (hlists : w.Lists pending)
    (h : explore g flow batch running (fuel + 1) distance (w, p) = .ok largest (w', p')) :
    ∃ (next : WorkingSet g.Node) (q : Progress g.nodeCount),
      q = pending.foldl (fun p v => visitNode g flow (distance + 1) v p) p ∧
        next.Lists q.next.toList ∧ next.capacity = w.capacity ∧
          ((q.next.toList = [] ∧ largest = distance ∧ w' = next ∧ p' = { q with next := #[] }) ∨
            q.next.toList ≠ [] ∧ explore g flow batch running fuel (distance + 1)
              (next, { q with next := #[] }) = .ok largest (w', p')) := by
  unfold explore at h
  obtain ⟨_, ⟨w₁, p₁⟩, hconsume, h⟩ := bind_eq_ok_iff.mp h
  obtain ⟨hslots, -, rfl⟩ := WorkingSet.consume_eq_ok hlists.cursor_eq hconsume
  obtain ⟨_, ⟨w₂, p₂⟩, hnextLayer, h⟩ := bind_eq_ok_iff.mp h
  obtain ⟨hlists₂, hcapacity₂, rfl⟩ := nextLayer_eq_ok hnextLayer
  rw [get_bind] at h
  rw [hlists.toList_eq] at hlists₂ h
  refine ⟨w₂, _, rfl, hlists₂, hcapacity₂.trans (congrArg Array.size hslots), ?_⟩
  split at h
  next hempty =>
    obtain ⟨rfl, heq⟩ := pure_eq_ok_iff.mp h
    obtain ⟨rfl, rfl⟩ := Prod.mk.inj heq
    exact Or.inl ⟨hlists₂.isEmpty_iff.mp hempty, rfl, rfl, rfl⟩
  next hfull => exact Or.inr ⟨mt hlists₂.isEmpty_iff.mpr hfull, h⟩

/-- A search begins with the sink as the only node of its layer. -/
theorem exploreFrom_eq_ok {batch : Nat} {running : Bool} {largest : Nat}
    {w w' : WorkingSet g.Node} {p p' : Progress g.nodeCount}
    (h : exploreFrom g flow batch running source sink (w, p) = .ok largest (w', p')) :
    ∃ first : WorkingSet g.Node, first.Lists [sink] ∧ first.capacity = w.capacity ∧
      explore g flow batch running g.nodeCount 0 (first, start g source sink) =
        .ok largest (w', p') := by
  unfold exploreFrom at h
  rw [modify_bind] at h
  obtain ⟨_, ⟨w₁, p₁⟩, hpush, h⟩ := bind_eq_ok_iff.mp h
  obtain ⟨hpushed, rfl⟩ := onSet_eq_ok_iff.mp hpush
  obtain ⟨hlists, hcapacity⟩ := WorkingSet.lists_of_push hpushed
  exact ⟨w₁, hlists, hcapacity, h⟩

theorem exactLabels_of_explore {batch : Nat} {running : Bool} {fuel largest : Nat}
    {w w' : WorkingSet g.Node} {p p' : Progress g.nodeCount} (hlists : w.Lists pending)
    (hlayer : InLayer flow source sink distance pending p) (hfuel : distance + fuel = g.nodeCount)
    (h : explore g flow batch running fuel distance (w, p) = .ok largest (w', p')) :
    g.ExactLabels flow p'.labels source sink ∧ w'.capacity = w.capacity := by
  induction fuel generalizing distance pending w p with
  | zero => exact absurd h throw_ne_ok
  | succ fuel ih =>
      have hdone := hlayer.foldl_visitNode
      obtain ⟨next, _, rfl, hnext, hcapacity, ⟨hempty, -, rfl, rfl⟩ | ⟨-, h⟩⟩ :=
        explore_eq_ok hlists h
      · exact ⟨hdone.exactLabels (Array.toList_eq_nil_iff.mp hempty), hcapacity⟩
      · cases fuel with
        -- a distance of the node count would be the sentinel; the fuel ends before it
        | zero => exact absurd h throw_ne_ok
        | succ fuel =>
            obtain ⟨hexact, hcapacity'⟩ := ih hnext (hdone.nextLayer (by omega)) (by omega) h
            exact ⟨hexact, hcapacity'.trans hcapacity⟩

/-- A search that was not interrupted leaves exact labels, whatever they were before. -/
theorem run_eq_ok {running : Bool} {largest : Nat} {search search' : Search g.nodeCount}
    {labels labels' : Vector Nat g.nodeCount} (hne : source ≠ sink)
    (h : run g flow running source sink (search, labels) = .ok largest (search', labels')) :
    g.ExactLabels flow labels' source sink ∧ search'.batch = search.batch ∧
      search'.frontier.capacity = search.frontier.capacity := by
  unfold run at h
  rw [get_bind] at h
  obtain ⟨⟨w, p⟩, hexplore, heq⟩ := onPart_eq_ok_iff.mp h
  obtain ⟨rfl, rfl⟩ := Prod.mk.inj heq
  obtain ⟨_, hlists, hcapacity, hexplore⟩ := exploreFrom_eq_ok hexplore
  obtain ⟨hexact, hcapacity'⟩ :=
    exactLabels_of_explore hlists (inLayer_start hne) (Nat.zero_add _) hexplore
  exact ⟨hexact, rfl, hcapacity'.trans hcapacity⟩

end PushRelabel.Search
