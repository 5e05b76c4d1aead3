import PushRelabel.Proofs.Halting
import PushRelabel.Proofs.Pass

/-! # Passes that can go on

A search finds at least one node per layer, and no node twice. So it never needs more
layers than it has fuel for, and a layer always fits into the frontier. A pass can
therefore recompute its labels at any time, unless it is asked to stop.
-/

namespace PushRelabel

variable {K : Type}

namespace Journal

variable {j : Journal K}

/-- The stop flag is down, and no event raises it. -/
structure Quiet (j : Journal K) : Prop where
  stopped_eq : j.stopped = false
  stopAt_eq : j.stopAt = none

theorem Quiet.record (h : j.Quiet) (e : Event K) : (j.record e).Quiet := by
  refine ⟨?_, h.stopAt_eq⟩
  simp [Journal.record, h.stopped_eq, h.stopAt_eq]

theorem Quiet.running (h : j.Quiet) : j.running = true := by
  simp [Journal.running, h.stopped_eq]

/-- The stop flag stays down, or an interruption has an excuse. -/
def Bears (excused : Halt → Prop) (j : Journal K) : Prop := j.Quiet ∨ excused .interrupted

variable {excused : Halt → Prop}

theorem Bears.record (h : j.Bears excused) (e : Event K) : (j.record e).Bears excused :=
  h.imp_left fun hquiet => hquiet.record e

theorem Bears.foldl_record (h : j.Bears excused) (es : List (Event K)) :
    (es.foldl Journal.record j).Bears excused :=
  List.foldlRecOn (motive := Bears excused) es _ h fun _ hj e _ => hj.record e

theorem Bears.running (h : j.Bears excused) : j.running = true ∨ excused .interrupted :=
  h.imp_left Quiet.running

end Journal

namespace Search

open WorkingSet (Overflows)

variable [Quantity K] {g : FlowGraph K} {flow : g.Flow} {source sink : g.Node} {batch : Nat}
  {running : Bool} {excused : Halt → Prop} {p : Progress g.nodeCount}

/-- How many nodes are not found yet. -/
def unfound {n : Nat} (p : Progress n) : Nat :=
  (Finset.univ.filter fun v : Fin n => p.found[v] = false).card

theorem size_add_unfound_visitDart (distance : Nat) (p : Progress g.nodeCount) (d : g.DartOf) :
    (visitDart g flow distance p d).next.size + unfound (visitDart g flow distance p d) =
      p.next.size + unfound p := by
  unfold visitDart
  split
  next hnew =>
    have herase : (Finset.univ.filter fun v : g.Node => (p.found.put d.other true)[v] = false) =
        (Finset.univ.filter fun v : g.Node => p.found[v] = false).erase d.other := by
      ext v
      rw [Finset.mem_erase, Finset.mem_filter, Finset.mem_filter, Vector.getElem_put]
      by_cases hv : v = d.other <;> simp [hv]
    have hmem : d.other ∈ Finset.univ.filter fun v : g.Node => p.found[v] = false :=
      Finset.mem_filter.mpr ⟨Finset.mem_univ _, hnew.2⟩
    have hcard : unfound { p with found := p.found.put d.other true } + 1 = unfound p := by
      rw [unfound, unfound, herase]
      exact Finset.card_erase_add_one hmem
    rw [Array.size_push, ← hcard, Nat.add_right_comm]
    rfl
  next => rfl

theorem size_add_unfound_foldl_visitNode (flow : g.Flow) (distance : Nat) (p : Progress g.nodeCount)
    (vs : List g.Node) :
    (vs.foldl (fun p v => visitNode g flow distance v p) p).next.size +
      unfound (vs.foldl (fun p v => visitNode g flow distance v p) p) =
        p.next.size + unfound p := by
  have hdarts : ∀ (ds : List g.DartOf) (p : Progress g.nodeCount),
      (ds.foldl (visitDart g flow distance) p).next.size +
        unfound (ds.foldl (visitDart g flow distance) p) = p.next.size + unfound p := by
    intro ds
    induction ds with
    | nil => exact fun _ => rfl
    | cons d ds ih => exact fun p => (ih _).trans (size_add_unfound_visitDart distance p d)
  induction vs generalizing p with
  | nil => rfl
  | cons v vs ih => exact (ih _).trans (hdarts (g.darts v) p)

omit [Quantity K] in
theorem unfound_start (hne : source ≠ sink) :
    unfound (start g source sink) + 2 = g.nodeCount := by
  have hfilter : (Finset.univ.filter fun v : g.Node => (start g source sink).found[v] = false) =
      Finset.univ \ {source, sink} := by
    ext v
    simp only [start, Finset.mem_filter, Finset.mem_univ, true_and, Vector.getElem_put,
      Finset.mem_sdiff, Finset.mem_insert, Finset.mem_singleton, not_or]
    by_cases hsink : v = sink <;> by_cases hsource : v = source <;> simp [hsink, hsource]
  have hpair : ({source, sink} : Finset g.Node).card = 2 := Finset.card_pair hne
  have hle := Finset.card_le_univ ({source, sink} : Finset g.Node)
  rw [unfound, hfilter, Finset.card_univ_sdiff, hpair]
  rw [hpair, Fintype.card_fin] at hle
  rw [Fintype.card_fin]
  omega

/-- The nodes of a layer are visited, and that halts early only for certain reasons. -/
def Consumes (g : FlowGraph K) (flow : g.Flow) (batch : Nat) (running : Bool)
    (excused : Halt → Prop) : Prop :=
  ∀ (distance : Nat) (w : WorkingSet g.Node) (pending : List g.Node) (p : Progress g.nodeCount),
    w.Lists pending → w.capacity = g.nodeCount → pending.length ≤ g.nodeCount →
      HaltsOnly excused (WorkingSet.consume batch running (visitNode g flow distance)) (w, p)

theorem consumes_of_excused (flow : g.Flow)
    (hoverflow : ∀ h, Overflows g.nodeCount batch h → excused h)
    (hrunning : running = true ∨ excused .interrupted) (hbatch : excused .outOfFuel ∨ 1 ≤ batch) :
    Consumes g flow batch running excused := by
  intro distance w pending p hlists hcapacity hpending
  refine WorkingSet.haltsOnly_consume ?_ hrunning hbatch hlists (hcapacity ▸ hpending)
  rwa [hcapacity]

omit [Quantity K] in
theorem haltsOnly_nextLayer {w : WorkingSet g.Node} {p : Progress g.nodeCount}
    (hroom : p.next.toList.length ≤ w.capacity) : HaltsOnly excused (nextLayer g) (w, p) := by
  unfold nextLayer
  refine haltsOnly_get_bind ?_
  refine haltsOnly_modify_bind ?_
  exact haltsOnly_onSet fun e w' herror => absurd herror (WorkingSet.pushAll_ne_error hroom)

/-- The next layer has no more nodes than were not found, so there is room for it; and if it
has any, fewer are left. -/
theorem haltsOnly_explore {fuel distance : Nat} {w : WorkingSet g.Node} {pending : List g.Node}
    (hconsumes : Consumes g flow batch running excused) (hlists : w.Lists pending)
    (hcapacity : w.capacity = g.nodeCount) (hpending : pending.length ≤ g.nodeCount)
    (hnext : p.next = #[]) (hunfound : distance + 2 + unfound p ≤ g.nodeCount)
    (hfuel : distance + fuel = g.nodeCount) :
    HaltsOnly excused (explore g flow batch running fuel distance) (w, p) := by
  induction fuel generalizing distance pending w p with
  | zero => omega
  | succ fuel ih =>
      unfold explore
      refine (hconsumes _ w pending p hlists hcapacity hpending).bind fun _ r hconsume => ?_
      rcases r with ⟨w₁, p₁⟩
      obtain ⟨hslots, -, rfl⟩ := WorkingSet.consume_eq_ok hlists.cursor_eq hconsume
      have hsize := size_add_unfound_foldl_visitNode flow (distance + 1) p w.toList
      set p₁ := w.toList.foldl (fun p v => visitNode g flow (distance + 1) v p) p
      have hcapacity₁ : w₁.capacity = g.nodeCount := (congrArg Array.size hslots).trans hcapacity
      have hzero : p.next.size = 0 := by rw [hnext]; rfl
      -- what was found in this layer was not found before it, so there is room for the next one
      have hroom : p₁.next.toList.length ≤ w₁.capacity := by
        rw [Array.length_toList, hcapacity₁]
        omega
      refine (haltsOnly_nextLayer hroom).bind fun _ r hok => ?_
      rcases r with ⟨w₂, p₂⟩
      obtain ⟨hlists₂, hcapacity₂, rfl⟩ := nextLayer_eq_ok hok
      refine haltsOnly_get_bind ?_
      split
      next => exact haltsOnly_pure _
      next hfull =>
        have hpos : p₁.next.size ≠ 0 := by
          intro heq
          refine hfull (hlists₂.isEmpty_iff.mpr ?_)
          rw [Array.eq_empty_of_size_eq_zero heq]
        have hsame : unfound { p₁ with next := #[] } = unfound p₁ := rfl
        refine ih hlists₂ (hcapacity₂.trans hcapacity₁) ?_ rfl (by omega) (by omega)
        exact hroom.trans hcapacity₁.le

theorem haltsOnly_exploreFrom {w : WorkingSet g.Node}
    (hconsumes : Consumes g flow batch running excused) (hcapacity : w.capacity = g.nodeCount)
    (hne : source ≠ sink) :
    HaltsOnly excused (exploreFrom g flow batch running source sink) (w, p) := by
  have hpos : 0 < w.reset.slots.size := by
    change 0 < w.capacity
    rw [hcapacity]
    exact Fin.pos sink
  unfold exploreFrom
  refine haltsOnly_modify_bind ?_
  refine (haltsOnly_onSet fun e w' herror => ?_).bind fun _ r hpush => ?_
  · rw [WorkingSet.push_of_lt hpos] at herror
    cases herror
  · rcases r with ⟨w₁, p₁⟩
    obtain ⟨hpushed, rfl⟩ := onSet_eq_ok_iff.mp hpush
    obtain ⟨hlists, hcapacity₁⟩ := WorkingSet.lists_of_push hpushed
    have hunfound := unfound_start hne
    exact haltsOnly_explore hconsumes hlists (hcapacity₁.trans hcapacity) (Fin.pos sink) rfl
      (by omega) (Nat.zero_add _)

theorem haltsOnly_run {search : Search g.nodeCount} {labels : Vector Nat g.nodeCount}
    (hconsumes : Consumes g flow search.batch running excused)
    (hcapacity : search.frontier.capacity = g.nodeCount) (hne : source ≠ sink) :
    HaltsOnly excused (run g flow running source sink) (search, labels) := by
  unfold run
  refine haltsOnly_get_bind ?_
  exact HaltsOnly.onPart (haltsOnly_exploreFrom hconsumes hcapacity hne)

end Search

namespace Pass

variable {g : FlowGraph K} {p q : Pass g} {batch : Nat}

/-- The frontier of the search has a slot for each node, and there is an excuse if a position
leaves the words or if the stop flag is up. -/
structure Ready (excused : Halt → Prop) (batch : Nat) (p : Pass g) : Prop where
  overflow : ∀ h, WorkingSet.Overflows g.nodeCount batch h → excused h
  bears : p.journal.Bears excused
  batch_eq : p.search.batch = batch
  capacity_eq : p.search.frontier.capacity = g.nodeCount

variable {excused : Halt → Prop}

theorem Ready.congr (h : p.Ready excused batch) (hjournal : q.journal = p.journal)
    (hsearch : q.search = p.search) : q.Ready excused batch :=
  ⟨h.overflow, hjournal ▸ h.bears, hsearch ▸ h.batch_eq, hsearch ▸ h.capacity_eq⟩

theorem Ready.record (h : p.Ready excused batch) (e : Event K) :
    Ready excused batch { p with journal := p.journal.record e } :=
  ⟨h.overflow, h.bears.record e, h.batch_eq, h.capacity_eq⟩

theorem ready_start {batch : Nat} (hbatch : 1 ≤ batch) (p : Preflow g) {journal : Journal K}
    (hoverflow : ∀ h, WorkingSet.Overflows g.nodeCount batch h → excused h)
    (h : journal.Bears excused) : (start batch p journal).Ready excused batch :=
  ⟨hoverflow, h, max_eq_left hbatch, Array.size_replicate⟩

variable [Quantity K] {source sink : g.Node}

/-- Labels can be recomputed at any time. -/
theorem Ready.haltsOnly_relabel (h : p.Ready excused batch) (hbatch : 1 ≤ batch)
    (hne : source ≠ sink) : HaltsOnly excused (relabel source sink) p := by
  have hrecorded := h.record .relabelStarted
  unfold relabel
  refine haltsOnly_modify_bind ?_
  refine haltsOnly_get_bind ?_
  refine (HaltsOnly.onPart ?_).bind fun _ r _ => haltsOnly_modify _
  have hconsumes :=
    Search.consumes_of_excused p.flow h.overflow hrecorded.bears.running (Or.inr hbatch)
  rw [← h.batch_eq] at hconsumes
  exact Search.haltsOnly_run hconsumes h.capacity_eq hne

theorem Ready.relabel (h : p.Ready excused batch) (hne : source ≠ sink) {u : Unit}
    (hrelabel : Pass.relabel source sink p = .ok u q) : q.Ready excused batch := by
  unfold Pass.relabel at hrelabel
  rw [modify_bind, get_bind] at hrelabel
  obtain ⟨largest, p₂, hsearch, hrelabel⟩ := bind_eq_ok_iff.mp hrelabel
  obtain rfl := modify_eq_ok_iff.mp hrelabel
  obtain ⟨⟨search, labels⟩, hrun, rfl⟩ := onPart_eq_ok_iff.mp hsearch
  obtain ⟨-, hbatch, hcapacity⟩ := Search.run_eq_ok hne hrun
  exact ⟨h.overflow, (h.bears.record _).record _, hbatch.trans h.batch_eq,
    hcapacity.trans h.capacity_eq⟩

end Pass

end PushRelabel
