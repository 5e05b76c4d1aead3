import PushRelabel.Proofs.Flow.Shortest
import PushRelabel.Proofs.FlowGraph.Meaning
import PushRelabel.Proofs.Outcomes
import PushRelabel.Proofs.Ready

/-! # Searches find distances

A search that ends well has found the distances and returns the largest of them. It does not
matter what an earlier search has left behind, even one that was interrupted: the labels, the
frontier and the nodes found start afresh, and the frontier always has a slot for each node.
-/

namespace PushRelabel

namespace WorkingSet

/-- A reason to halt other than that there is no room for an element, or none in a slot. -/
def KeepsRoom (h : Halt) : Prop := h = .interrupted ∨ h = .outOfFuel ∨ h = .fault .overflow

end WorkingSet

namespace Search

open WorkingSet (KeepsRoom)

variable {K : Type} [Quantity K] {g : FlowGraph K} {flow : g.Flow} {source sink : g.Node}
  {batch distance : Nat} {running : Bool} {pending : List g.Node} {p : Progress g.nodeCount}
  {search : Search g.nodeCount} {labels : Vector Nat g.nodeCount}

theorem consumes_keepsRoom (flow : g.Flow) (batch : Nat) (running : Bool) :
    Consumes g flow batch running KeepsRoom :=
  consumes_of_excused flow (fun _ h => Or.inr (Or.inr h.1)) (Or.inr (Or.inl rfl))
    (Or.inl (Or.inr (Or.inl rfl)))

/-! ## The largest label -/

/-- The labels of the nodes that were found, but not in the current layer, are at most its
distance. -/
def Ranked (source : g.Node) (distance : Nat) (p : Progress g.nodeCount) : Prop :=
  ∀ v : g.Node, v ≠ source → p.found[v] = true → p.labels[v] ≤ distance ∨ v ∈ p.next

theorem Ranked.visitDart (h : Ranked source distance p) (d : g.DartOf) :
    Ranked source distance (Search.visitDart g flow (distance + 1) p d) := by
  rcases visitDart_eq_or_finds flow (distance + 1) p d with heq | ⟨-, hfinds⟩
  · rw [heq]
    exact h
  · intro v hsource hfound
    rw [hfinds.mem_next]
    rcases hfinds.eq_or_found hfound with hv | hfound
    · exact Or.inr (Or.inr hv)
    · rw [hfinds.label_of_found hfound]
      exact (h v hsource hfound).imp_right Or.inl

theorem Ranked.nextLayer (h : Ranked source distance p)
    (hdone : InLayer flow source sink distance [] p) :
    Ranked source (distance + 1) { p with next := #[] } := by
  intro v hsource hfound
  left
  rcases h v hsource hfound with hle | hv
  · exact hle.trans (Nat.le_succ _)
  · exact (hdone.next_eq v hv).1.le

theorem Ranked.label_le (h : Ranked source distance p)
    (hdone : InLayer flow source sink distance [] p) (hnext : p.next.toList = []) {v : g.Node}
    (hlt : p.labels[v] < g.nodeCount) : p.labels[v] ≤ distance := by
  have hsource : v ≠ source := by
    rintro rfl
    exact hlt.ne hdone.source_eq
  refine (h v hsource (hdone.found_of_label_lt hlt)).resolve_right fun hv => ?_
  rw [← Array.mem_toList_iff, hnext] at hv
  exact List.not_mem_nil hv

omit [Quantity K] in
theorem ranked_start : Ranked source 0 (start g source sink) := by
  intro v hsource hfound
  have hsink : v = sink := by
    change (((Vector.replicate g.nodeCount false).put source true).put sink true)[v] = true
      at hfound
    rw [Vector.getElem_put, Vector.getElem_put, if_neg hsource] at hfound
    simpa using hfound
  left
  rw [hsink]
  exact (Vector.getElem_set_self sink.isLt).le

theorem label_visitDart_of_found {v : g.Node} (hfound : p.found[v] = true) (d : g.DartOf) :
    (visitDart g flow distance p d).labels[v] = p.labels[v] := by
  rcases visitDart_eq_or_finds flow distance p d with heq | ⟨-, hfinds⟩
  · rw [heq]
  · exact hfinds.label_of_found hfound

/-- What holds while nodes are visited if it holds whenever a dart is looked at. -/
theorem foldl_visitNode_induction (flow : g.Flow) (distance : Nat)
    {motive : Progress g.nodeCount → Prop}
    (hdart : ∀ q d, motive q → motive (visitDart g flow distance q d)) (h : motive p)
    (vs : List g.Node) : motive (vs.foldl (fun p v => visitNode g flow distance v p) p) :=
  List.foldlRecOn vs _ h fun _ hp v _ =>
    List.foldlRecOn (g.darts v) _ hp fun q hq d _ => hdart q d hq

theorem label_foldl_visitNode {v : g.Node} (hfound : p.found[v] = true) (vs : List g.Node) :
    (vs.foldl (fun p v => visitNode g flow (distance + 1) v p) p).labels[v] = p.labels[v] := by
  have hkept := foldl_visitNode_induction flow (distance + 1) (p := p)
    (motive := fun q => q.found[v] = true ∧ q.labels[v] = p.labels[v])
    (fun q d hq => ⟨found_visitDart_of_found hq.1 d,
      (label_visitDart_of_found hq.1 d).trans hq.2⟩) ⟨hfound, rfl⟩ vs
  exact hkept.2

/-- A search ends in the last layer that has nodes. -/
theorem isGreatest_of_explore {fuel largest : Nat} {w w' : WorkingSet g.Node}
    {p' : Progress g.nodeCount} (hlists : w.Lists pending) (hpending : pending ≠ [])
    (hlayer : InLayer flow source sink distance pending p) (hranked : Ranked source distance p)
    (hfuel : distance + fuel = g.nodeCount)
    (h : explore g flow batch running fuel distance (w, p) = .ok largest (w', p')) :
    IsGreatest {label | label < g.nodeCount ∧ ∃ v : g.Node, p'.labels[v] = label} largest := by
  induction fuel generalizing distance pending w p with
  | zero => exact absurd h throw_ne_ok
  | succ fuel ih =>
      have hdone := hlayer.foldl_visitNode
      have hranked := foldl_visitNode_induction flow (distance + 1)
        (motive := Ranked source distance) (fun _ d hp => hp.visitDart d) hranked pending
      -- a layer is not empty, and its nodes have its distance
      have hattained : ∃ v : g.Node, (pending.foldl (fun p v =>
          visitNode g flow (distance + 1) v p) p).labels[v] = distance := by
        obtain ⟨v, hv⟩ := List.exists_mem_of_ne_nil _ hpending
        obtain ⟨hlabel, hfound⟩ := hlayer.pending_eq v hv
        exact ⟨v, (label_foldl_visitNode hfound pending).trans hlabel⟩
      obtain ⟨next, _, rfl, hnext, -, ⟨hempty, rfl, rfl, rfl⟩ | ⟨hfull, h⟩⟩ :=
        explore_eq_ok hlists h
      · refine ⟨⟨hlayer.distance_lt, hattained⟩, ?_⟩
        rintro label ⟨hlt, v, rfl⟩
        exact hranked.label_le hdone hempty hlt
      · cases fuel with
        | zero => exact absurd h throw_ne_ok
        | succ fuel =>
            exact ih hnext hfull (hdone.nextLayer (by omega)) (hranked.nextLayer hdone)
              (by omega) h

theorem isGreatest_of_run {largest : Nat} {r : Search g.nodeCount × Vector Nat g.nodeCount}
    (hne : source ≠ sink)
    (h : run g flow running source sink (search, labels) = .ok largest r) :
    IsGreatest {label | label < g.nodeCount ∧ ∃ v : g.Node, r.2[v] = label} largest := by
  unfold run at h
  rw [get_bind] at h
  obtain ⟨⟨w, p⟩, hexplore, rfl⟩ := onPart_eq_ok_iff.mp h
  obtain ⟨_, hlists, -, hexplore⟩ := exploreFrom_eq_ok hexplore
  exact isGreatest_of_explore hlists (List.cons_ne_nil _ _) (inLayer_start hne) ranked_start
    (Nat.zero_add _) hexplore

/-! ## What is left for the next search -/

/-- Wherever a search halts, the frontier has its slots, and the source has the sentinel. -/
structure Steady (slots : Nat) (source : g.Node) (r : State g.nodeCount) : Prop where
  capacity_eq : r.1.capacity = slots
  found : r.2.found[source] = true
  label_eq : r.2.labels[source] = g.nodeCount

variable {slots fuel : Nat} {r : State g.nodeCount}

theorem Steady.leaves_consume (h : Steady slots source r) :
    Leaves (Steady slots source)
      (WorkingSet.consume batch running (visitNode g flow (distance + 1)) r) := by
  refine WorkingSet.leaves_consume.mono fun q hq => ?_
  obtain ⟨hkeeps, vs, -, hvisited⟩ := hq
  have hsource := foldl_visitNode_induction flow (distance + 1) (p := r.2)
    (motive := fun q => q.found[source] = true ∧ q.labels[source] = g.nodeCount)
    (fun q d hq => ⟨found_visitDart_of_found hq.1 d,
      (label_visitDart_of_found hq.1 d).trans hq.2⟩) ⟨h.found, h.label_eq⟩ vs
  rw [← hvisited] at hsource
  exact ⟨(congrArg Array.size hkeeps.slots_eq).trans h.capacity_eq, hsource.1, hsource.2⟩

omit [Quantity K] in
theorem Steady.leaves_nextLayer (h : Steady slots source r) :
    Leaves (Steady slots source) (Search.nextLayer g r) := by
  have hcapacity : r.1.reset.capacity = slots := h.capacity_eq
  unfold Search.nextLayer
  refine Leaves.get (Leaves.modify ?_)
  exact Leaves.onSet (R := fun w => w.capacity = slots) (WorkingSet.leaves_pushAll hcapacity _)
    fun _ hw => ⟨hw, h.found, h.label_eq⟩

theorem Steady.leaves_explore (h : Steady slots source r) :
    Leaves (Steady slots source) (explore g flow batch running fuel distance r) := by
  induction fuel generalizing distance r with
  | zero => exact h
  | succ fuel ih =>
      unfold explore
      refine Leaves.bind h.leaves_consume fun _ q _ hq => ?_
      refine Leaves.bind hq.leaves_nextLayer fun _ q _ hq => Leaves.get ?_
      split
      · exact leaves_pure _ hq
      · exact ih hq

theorem leaves_run (hne : source ≠ sink) (hcapacity : search.frontier.capacity = slots) :
    Leaves (fun r => r.1.frontier.capacity = slots ∧ r.2[source] = g.nodeCount)
      (run g flow running source sink (search, labels)) := by
  have hstart : InLayer flow source sink 0 [sink] (start g source sink) := inLayer_start hne
  have hsteady : Steady slots source (search.frontier.reset, start g source sink) :=
    ⟨hcapacity, hstart.source_found, hstart.source_eq⟩
  unfold run
  refine Leaves.get (Leaves.onPart (R := Steady slots source) ?_
    fun _ hr => ⟨hr.capacity_eq, hr.label_eq⟩)
  unfold exploreFrom
  refine Leaves.modify (Leaves.bind (P := Steady slots source) ?_
    fun _ r _ hr => hr.leaves_explore)
  exact Leaves.onSet (WorkingSet.leaves_push hsteady.capacity_eq sink)
    fun _ hw => ⟨hw, hsteady.found, hsteady.label_eq⟩

/-- A search that ends well finds the distances, and returns the largest of them. Of what an
earlier search has left behind, interrupted or not, it needs only that the frontier has a slot
for each node; in any case it leaves as many for the next one, and it never runs out of room. So
another search over the same flow finds the same labels. -/
theorem distances_of_run (hne : source ≠ sink)
    (hcapacity : search.frontier.capacity = g.nodeCount) :
    (∀ largest r, run g flow running source sink (search, labels) = .ok largest r →
      g.Distances flow r.2 source sink ∧
        IsGreatest {label | label < g.nodeCount ∧ ∃ v : g.Node, r.2[v] = label} largest ∧
        ∀ running' largest' r', run g flow running' source sink r = .ok largest' r' →
          r'.2 = r.2) ∧
      HaltsOnly KeepsRoom (run g flow running source sink) (search, labels) ∧
      Leaves (fun r => r.1.frontier.capacity = g.nodeCount)
        (run g flow running source sink (search, labels)) := by
  refine ⟨fun largest r hrun => ?_, ?_, (leaves_run hne hcapacity).mono fun _ hr => hr.1⟩
  · have hdistances := (run_eq_ok hne hrun).1.distances
    refine ⟨hdistances, isGreatest_of_run hne hrun, fun running' largest' r' hagain => ?_⟩
    exact (run_eq_ok hne hagain).1.distances.labels_unique hdistances
  · exact haltsOnly_run (consumes_keepsRoom flow search.batch running) hcapacity hne

/-- What a search finds after one that was interrupted. -/
def bottleneckDistances? : Option (Nat × List Nat) :=
  match Problem.bottleneck.build with
  | .error _ => none
  | .ok g =>
      match run g g.initialFlow false g.source g.target
        (.ofBatch 2 g.source, Vector.replicate g.nodeCount 0) with
      | .error .interrupted r =>
          match run g g.initialFlow true g.source g.target r with
          | .ok largest r => some (largest, r.2.toList)
          | .error _ _ => none
      | _ => none

theorem bottleneckDistances?_eq : bottleneckDistances? = some (4, [4, 3, 1, 6, 0, 2]) := by
  decide +kernel

theorem distances_of_run_bottleneck : ∃ (g : FlowGraph ℤ) (largest : Nat)
    (r r' : Search g.nodeCount × Vector Nat g.nodeCount), Problem.bottleneck.build = .ok g ∧
      g.source ≠ g.target ∧ r.1.frontier.capacity = g.nodeCount ∧
      run g g.initialFlow false g.source g.target
        (.ofBatch 2 g.source, Vector.replicate g.nodeCount 0) = .error .interrupted r ∧
      run g g.initialFlow true g.source g.target r = .ok largest r' ∧ largest = 4 ∧
      r'.2.toList = [4, 3, 1, 6, 0, 2] ∧ g.Distances g.initialFlow r'.2 g.source g.target ∧
      IsGreatest {label | label < g.nodeCount ∧ ∃ v : g.Node, r'.2[v] = label} largest := by
  have hlabels := bottleneckDistances?_eq
  unfold bottleneckDistances? at hlabels
  cases hbuild : Problem.bottleneck.build with
  | error _ => simp [hbuild] at hlabels
  | ok g =>
      simp only [hbuild] at hlabels
      split at hlabels
      next r hinterrupted =>
        have hleft : Leaves (fun r => r.1.frontier.capacity = g.nodeCount)
            (run g g.initialFlow false g.source g.target
              (.ofBatch 2 g.source, Vector.replicate g.nodeCount 0)) :=
          (leaves_run g.source_ne_target (by exact Array.size_replicate)).mono fun _ hr => hr.1
        rw [hinterrupted] at hleft
        split at hlabels
        next largest r' hrun =>
          simp only [Option.some.injEq, Prod.mk.injEq] at hlabels
          obtain ⟨hdistances, hgreatest, -⟩ :=
            (distances_of_run g.source_ne_target hleft).1 largest r' hrun
          exact ⟨g, largest, r, r', rfl, g.source_ne_target, hleft, hinterrupted, hrun, hlabels.1,
            hlabels.2, hdistances, hgreatest⟩
        next => simp at hlabels
      next => simp at hlabels

end Search

end PushRelabel
