import PushRelabel.Proofs.Discharger
import PushRelabel.Proofs.Distances
import PushRelabel.Proofs.Pass.Transfers
import PushRelabel.Proofs.Pass.RoundsReady

/-! # The source of a pass stands by

Neither engine sends anything from or to the source of a pass. It has the sentinel label all the
time, so no discharge sends to it, and it never waits to be discharged. This is so between two
discharges or rounds and wherever a pass halts, also in the middle of a round. It does not depend
on the arithmetic.
-/

namespace PushRelabel

variable {K : Type} {g : FlowGraph K}

namespace Discharger

/-- The nodes that wait to be discharged. -/
def waiting : Discharger g → List g.Node
  | fifo s => s.queue.toList
  | rounds s => s.workingSet.toList

variable [Quantity K]

/-- What a discharger sends next: in the discharge of the first node that waits, or of all. -/
def upcoming (sink : g.Node) : Discharger g → List (Transfer g)
  | fifo s =>
      match s.queue.pop? with
      | none => []
      | some (v, queue) => (s.taken v queue).transfers sink v
  | rounds s => Round.transfers sink s.workingSet.toList s.toRound

/-- Some transfers, made one after the other, are all that the flow changes by: in the discharge of
the first node that waits, or until all nodes that wait were discharged. -/
def Sends (sink : g.Node) (transfers : List (Transfer g)) : Discharger g → Prop
  | fifo s => ∀ v queue, s.queue.pop? = some (v, queue) →
      ((s.taken v queue).discharge sink v).flow = transfers.foldl Transfer.apply s.flow
  | rounds s => ∀ running u t, s.workingSet.cursor = 0 →
      Rounds.forEach running (Round.discharge sink) s = .ok u t →
        t.flow = transfers.foldl Transfer.apply s.flow

theorem sends_upcoming (sink : g.Node) (d : Discharger g) : d.Sends sink (d.upcoming sink) := by
  cases d with
  | fifo s =>
      intro v queue hpop
      rw [Fifo.flow_discharge, upcoming, hpop]
      rfl
  | rounds s =>
      intro running u t hcursor h
      obtain ⟨hround, -⟩ := Rounds.forEach_eq_ok hcursor h
      rw [hround]
      exact Round.flow_foldl_discharge sink _ _

/-- A pass has left its source alone and is about to do so: nothing that it sends next goes from or
to the source. -/
structure Spares (start : Preflow g) (source sink : g.Node) (d : Discharger g) : Prop where
  leavesAlone : start.LeavesAlone source d.pass.toPreflow
  label_eq : d.pass.labels[source] = g.nodeCount
  not_waiting : source ∉ d.waiting
  sends : d.Sends sink (d.upcoming sink)
  avoids : ∀ t ∈ d.upcoming sink, t.giver ≠ source ∧ t.dart.other ≠ source

end Discharger

open Discharger (Spares sends_upcoming)

variable [Quantity K] {start : Preflow g} {source sink : g.Node} {u : Unit}

/-- Recomputing the labels touches nothing but labels, and gives the source the sentinel, even if
it is interrupted. -/
theorem Pass.leaves_relabel {p : Pass g} (hne : source ≠ sink)
    (h : start.LeavesAlone source p.toPreflow) :
    Leaves (fun q : Pass g => start.LeavesAlone source q.toPreflow ∧ q.labels[source] = g.nodeCount)
      (Pass.relabel source sink p) := by
  unfold Pass.relabel
  refine Leaves.modify (Leaves.get (Leaves.bind (Leaves.onPart (Search.leaves_run hne rfl)
    fun r hr => ?_) fun largest q _ hq => ?_))
  · exact ⟨⟨h.flow_eq, h.excess_eq⟩, hr.2⟩
  · exact ⟨⟨hq.1.flow_eq, hq.1.excess_eq⟩, hq.2⟩

namespace Fifo

variable {s t : Fifo g} {busy : Option g.Node} {threshold : Nat}

theorem spares (hleaves : start.LeavesAlone source s.toPreflow)
    (hlabel : s.labels[source] = g.nodeCount) (hqueue : source ∉ s.queue.toList) :
    (Discharger.fifo s).Spares start source sink := by
  refine ⟨hleaves, hlabel, hqueue, sends_upcoming sink _, fun t ht => ?_⟩
  unfold Discharger.upcoming at ht
  cases hpop : s.queue.pop? with
  | none => simp [hpop] at ht
  | some next =>
      rcases next with ⟨v, queue⟩
      simp only [hpop] at ht
      obtain ⟨hgiver, c, hc, hdart⟩ := mem_of_mem_scanTransfers ht
      obtain ⟨-, heq, hlt, -⟩ := mem_candidates_iff.mp hc
      refine ⟨?_, ?_⟩
      · rw [hgiver]
        rintro rfl
        exact hqueue (Queue.toList_of_pop? hpop ▸ List.mem_cons_self)
      · rw [← hdart]
        intro hsource
        simp only [hsource] at heq
        exact hlt.ne (heq.trans hlabel)

theorem Kept.spares (h : s.Kept start source sink busy) :
    (Discharger.fifo s).Spares start source sink :=
  Fifo.spares h.leavesAlone h.source_eq fun hmem => (h.queues.inner source hmem).1 rfl

theorem leaves_relabel (hne : source ≠ sink) (hleaves : start.LeavesAlone source s.toPreflow)
    (hqueues : s.Queues source sink) :
    Leaves (fun t => (Discharger.fifo t).Spares start source sink) (relabel source sink s) := by
  unfold relabel
  refine Leaves.bind (Leaves.onPart (Pass.leaves_relabel hne hleaves) fun p hp => ?_)
    fun _ r hr _ => ?_
  · exact Fifo.spares hp.1 hp.2 fun hmem => (hqueues.inner source hmem).1 rfl
  · have hdone : relabel source sink s = .ok () _ := bind_of_ok hr
    obtain ⟨-, -, -, hkept, -⟩ := relabel_eq_ok hne hleaves hqueues hdone
    exact hkept.spares

theorem leaves_step (hkept : s.Kept start source sink none) (hne : source ≠ sink) :
    Leaves (fun t => (Discharger.fifo t).Spares start source sink)
      (step threshold source sink s) := by
  unfold step
  refine Leaves.get ?_
  cases hpop : s.queue.pop? with
  | none => exact leaves_pure _ hkept.spares
  | some next =>
      rcases next with ⟨v, queue⟩
      obtain ⟨hv, -, htaken⟩ := hkept.taken hpop
      refine Leaves.modify (Leaves.get ?_)
      split
      next =>
        refine Leaves.get (Leaves.bind (leaves_checkRunning _ htaken.spares) fun _ r hr _ => ?_)
        obtain ⟨-, rfl⟩ := checkRunning_eq_ok_iff.mp hr
        have hdone := (htaken.discharge hv).counted v
        refine Leaves.modify (Leaves.get ?_)
        split
        · exact Leaves.bind (leaves_relabel hne hdone.leavesAlone hdone.queues)
            fun _ _ _ hr => leaves_pure _ hr
        · exact leaves_pure _ hdone.spares
      next => exact leaves_pure _ htaken.spares

theorem leaves_run (threshold fuel : Nat) (s : Fifo g) (hne : source ≠ sink) :
    Leaves (fun t => (Discharger.fifo t).Spares s.toPreflow source sink)
      (run threshold fuel source sink s) := by
  unfold run
  refine Leaves.modify (Leaves.bind (leaves_relabel hne (Preflow.leavesAlone_refl _ source)
    (queues_cleared s)) fun _ r hr _ => Leaves.modify ?_)
  refine leaves_iterate (Between threshold source sink s) (fun _ _ h hstep => h.step hstep)
    (fun t ht => ?_) (.started _ hr)
  have hkept := ht.kept hne
  exact ⟨hkept.spares, leaves_step hkept hne⟩

end Fifo

namespace Rounds

variable {s t : Rounds g} {threshold : Nat}

theorem spares (hleaves : start.LeavesAlone source s.toPreflow)
    (hlabel : s.labels[source] = g.nodeCount) (hset : source ∉ s.workingSet.toList) :
    (Discharger.rounds s).Spares start source sink := by
  refine ⟨hleaves, hlabel, hset, sends_upcoming sink _, fun t ht => ?_⟩
  obtain ⟨hgiver, hpermits⟩ := Round.permits_of_mem_transfers ht
  refine ⟨ne_of_mem_of_not_mem hgiver hset, fun hsource => ?_⟩
  have hlt := hpermits.other_lt
  simp only [hsource] at hlt
  exact hlt.ne hlabel

theorem spares_of_eq {r : Round g} (hround : s.toRound = r)
    (hleaves : start.LeavesAlone source r.toPreflow) (hlabel : r.labels[source] = g.nodeCount)
    (hset : source ∉ s.workingSet.toList) : (Discharger.rounds s).Spares start source sink := by
  subst hround
  exact Rounds.spares hleaves hlabel hset

theorem Kept.not_mem (h : s.Kept start source sink) : source ∉ s.workingSet.toList :=
  fun hmem => (h.inner source hmem).1 rfl

theorem Kept.spares (h : s.Kept start source sink) :
    (Discharger.rounds s).Spares start source sink :=
  Rounds.spares h.idle.leavesAlone h.idle.source_eq h.not_mem

theorem leaves_refill {nodes : List g.Node} (hroom : nodes.length ≤ s.workingSet.capacity)
    (hleaves : start.LeavesAlone source s.toPreflow) (hlabel : s.labels[source] = g.nodeCount)
    (hnodes : source ∉ nodes) :
    Leaves (fun t => (Discharger.rounds t).Spares start source sink) (refill nodes s) := by
  have hends : HaltsOnly (fun _ => False) (refill nodes) s := haltsOnly_refill hroom
  refine leaves_iff.mpr ⟨fun _ t hok => ?_, fun e t herror => (hends e t herror).elim⟩
  obtain ⟨hround, -, hlists, -⟩ := refill_eq_ok hok
  exact spares_of_eq hround hleaves hlabel (hlists.toList_eq.symm ▸ hnodes)

theorem leaves_relabel (hne : source ≠ sink) (hleaves : start.LeavesAlone source s.toPreflow)
    (hset : source ∉ s.workingSet.toList) (hcapacity : s.workingSet.capacity = g.nodeCount) :
    Leaves (fun t => (Discharger.rounds t).Spares start source sink) (relabel source sink s) := by
  unfold relabel
  refine Leaves.bind (Leaves.onPart (Pass.leaves_relabel hne hleaves) fun p hp => ?_)
    fun _ r hr hspares => Leaves.modify (Leaves.get ?_)
  · exact Rounds.spares hp.1 hp.2 hset
  · obtain ⟨p, -, rfl⟩ := onPart_eq_ok_iff.mp hr
    refine Leaves.bind (leaves_refill ?_ hspares.leavesAlone hspares.label_eq ?_) fun _ q _ hq => ?_
    · change List.length _ ≤ s.workingSet.capacity
      rw [hcapacity]
      exact (List.length_filter_le _ _).trans List.length_finRange.le
    · exact fun hmem => (Preflow.mem_active.mp hmem).1 rfl
    · exact Rounds.spares hq.leavesAlone hq.label_eq hq.not_waiting

/-- Also in the middle of a round the source is left alone. -/
theorem leaves_discharge (h : s.Kept start source sink) :
    Leaves (fun t => (Discharger.rounds t).Spares start source sink) (discharge sink s) := by
  have hdischarged : ∀ vs, vs <+: s.workingSet.toList →
      (vs.foldl (fun r v => r.discharge sink v) s.opening).Kept start source sink
        s.workingSet.toList := fun vs hvs =>
    (h.opening s.workingSet.toList).foldl_discharge
      fun v hv => ⟨hvs.subset hv, h.inner v (hvs.subset hv)⟩
  have hset : ∀ t : Rounds g, t.workingSet.toList = s.workingSet.toList →
      source ∉ t.workingSet.toList := fun t ht => ht ▸ h.not_mem
  unfold discharge
  refine Leaves.modify (Leaves.get (Leaves.bind ?_ fun _ t ht _ => Leaves.modify ?_))
  · refine (leaves_forEach _ _ (by exact h.lists.cursor_eq)).mono fun t ht => ?_
    obtain ⟨hlist, vs, hvs, hround⟩ := ht
    have hkept := hdischarged vs hvs
    exact spares_of_eq hround hkept.leavesAlone hkept.source_eq (hset t hlist)
  · obtain ⟨hround, -, hlist, -⟩ := forEach_eq_ok (by exact h.lists.cursor_eq) ht
    refine (leaves_forEach _ _ rfl).mono fun q hq => ?_
    obtain ⟨hlist', vs, ⟨ws, hws⟩, hround'⟩ := hq
    have hsplit : vs ++ ws = s.workingSet.toList := hws.trans hlist
    have hall := hdischarged s.workingSet.toList List.prefix_rfl
    have hpending : t.toRound.Kept start source sink (vs ++ ws) := by
      rw [hround, hsplit]
      exact hall
    have hkept := hpending.foldl_commit fun v hv =>
      (h.inner v (hsplit ▸ List.mem_append_left ws hv)).1
    exact spares_of_eq hround' hkept.leavesAlone hkept.source_eq (hset q (hlist'.trans hlist))

theorem leaves_renew (hkept : s.toRound.Kept start source sink [])
    (hcapacity : s.workingSet.capacity = g.nodeCount) (hne : source ≠ sink) :
    Leaves (fun t => (Discharger.rounds t).Spares start source sink) (renew sink s) := by
  have hends : HaltsOnly (fun _ => False) (renew sink) s := haltsOnly_renew hcapacity hkept
  refine leaves_iff.mpr ⟨fun _ t hok => ?_, fun e t herror => (hends e t herror).elim⟩
  obtain ⟨hround, -, hlists, -⟩ := renew_eq_ok hok
  have hidle := hkept.closeGap.idle_close hne.symm
  refine spares_of_eq hround hidle.leavesAlone hidle.source_eq ?_
  rw [hlists.toList_eq]
  exact fun hmem => (hkept.closeGap.survivors.2 source hmem).1 rfl

theorem leaves_step (hkept : s.Kept start source sink)
    (hcapacity : s.workingSet.capacity = g.nodeCount) (hne : source ≠ sink) :
    Leaves (fun t => (Discharger.rounds t).Spares start source sink)
      (step threshold source sink s) := by
  unfold step
  refine Leaves.get ?_
  split
  next =>
    refine Leaves.get ?_
    split
    next => exact leaves_pure _ hkept.spares
    next =>
      refine Leaves.bind (leaves_relabel hne hkept.idle.leavesAlone hkept.not_mem hcapacity)
        fun _ r hr hspares => Leaves.get ?_
      dsimp only
      split
      next =>
        refine Leaves.modify (leaves_pure _ ?_)
        exact Rounds.spares hspares.leavesAlone hspares.label_eq hspares.not_waiting
      next => exact leaves_pure _ hspares
  next =>
    refine Leaves.bind (leaves_discharge hkept) fun _ p hdischarge _ => ?_
    have hp := hkept.discharge hdischarge
    obtain ⟨-, -, -, hcapacity'⟩ := discharge_eq_ok hkept.lists.cursor_eq hdischarge
    refine Leaves.bind (leaves_renew hp (hcapacity'.trans hcapacity) hne)
      fun _ q hrenew hspares => Leaves.get (Leaves.get ?_)
    have hq := hkept.round hne hdischarge hrenew
    obtain ⟨-, -, -, -, hcapacity''⟩ := renew_eq_ok hrenew
    dsimp only
    split
    next =>
      exact Leaves.bind (leaves_relabel hne hq.idle.leavesAlone hq.not_mem
        (hcapacity''.trans (hcapacity'.trans hcapacity))) fun _ _ _ hr => leaves_pure _ hr
    next => exact leaves_pure _ hspares

/-- A step leaves the working set its slots. -/
theorem capacity_of_step (hkept : s.Kept start source sink) (hne : source ≠ sink) {again : Bool}
    (hstep : step threshold source sink s = .ok again t) :
    t.workingSet.capacity = s.workingSet.capacity := by
  rcases step_eq_ok hstep with ⟨-, rfl, -⟩ | ⟨-, ⟨-, -, q, _, hrelabel, -, rfl⟩ | ⟨-, hround⟩⟩
  · rfl
  · exact (relabel_eq_ok hne hrelabel).2.2.2.2.capacity_eq
  · obtain ⟨p, q, hdischarge, hrenew, hlast⟩ := hround
    obtain ⟨-, -, hdischarged⟩ := discharge_eq_ok hkept.lists.cursor_eq hdischarge
    obtain ⟨-, -, -, hrenewed⟩ := renew_eq_ok hrenew
    have hq := hdischarged.trans hrenewed
    rcases hlast with rfl | ⟨-, hrelabel⟩
    · exact hq.capacity_eq
    · exact (hq.trans (relabel_eq_ok hne hrelabel).2.2.2.2).capacity_eq

theorem leaves_run (threshold fuel : Nat) {s : Rounds g} (hadded : ∀ v : g.Node, s.added[v] = 0)
    (hset : source ∉ s.workingSet.toList) (hcapacity : s.workingSet.capacity = g.nodeCount)
    (hne : source ≠ sink) :
    Leaves (fun t => (Discharger.rounds t).Spares s.toPreflow source sink)
      (run threshold fuel source sink s) := by
  unfold run
  refine Leaves.modify (Leaves.bind (leaves_relabel hne (Preflow.leavesAlone_refl _ source) hset
    hcapacity) fun _ r hr _ => Leaves.modify ?_)
  refine leaves_iterate (fun t => Between source sink s t ∧ t.workingSet.capacity = g.nodeCount)
    (fun t q ht hstep => ⟨ht.1.step hstep, ?_⟩) (fun t ht => ?_) ⟨.started _ hr, ?_⟩
  · exact (capacity_of_step (ht.1.kept hne hadded) hne hstep).trans ht.2
  · have hkept := ht.1.kept hne hadded
    exact ⟨hkept.spares, leaves_step hkept ht.2 hne⟩
  · exact (relabel_eq_ok hne hr).2.2.2.2.capacity_eq.trans hcapacity

theorem capacity_of_run {threshold fuel : Nat} (hadded : ∀ v : g.Node, s.added[v] = 0)
    (hne : source ≠ sink) (h : run threshold fuel source sink s = .ok u t) :
    t.workingSet.capacity = s.workingSet.capacity := by
  obtain ⟨r, e, hrelabel, hloop⟩ := run_eq_relabel h
  obtain ⟨q, ⟨hbetween, hq⟩, hlast⟩ := iterate_invariant
    (fun q : Rounds g => Between source sink s q ∧ q.workingSet.capacity = s.workingSet.capacity)
    (fun p q hp hstep => ⟨hp.1.step hstep,
      (capacity_of_step (hp.1.kept hne hadded) hne hstep).trans hp.2⟩)
    ⟨.started (r.journal.record e) hrelabel, (relabel_eq_ok hne hrelabel).2.2.2.2.capacity_eq⟩ hloop
  exact (capacity_of_step (hbetween.kept hne hadded) hne hlast).trans hq

end Rounds

namespace Discharger

variable {d e : Discharger g}

/-- A discharger can begin a pass from a source: nothing is unsettled, each node has a slot, and
the source does not wait. -/
def Prepared (source : g.Node) : Discharger g → Prop
  | fifo _ => True
  | rounds s => (∀ v : g.Node, s.added[v] = 0) ∧ s.workingSet.capacity = g.nodeCount ∧
      source ∉ s.workingSet.toList

theorem prepared_start (settings : Settings) (p : Preflow g) (journal : Journal K)
    (source : g.Node) : (Discharger.start settings p journal).Prepared source := by
  have hidle := idle_start settings p journal
  unfold Discharger.start at hidle ⊢
  dsimp only at hidle ⊢
  split at hidle
  · trivial
  · refine ⟨hidle, Array.size_replicate, ?_⟩
    simp [Rounds.start, WorkingSet.ofCapacity, WorkingSet.toList]

theorem Prepared.resume (h : d.Prepared source) (p : Preflow g) (journal : Journal K) :
    (d.resume p journal).Prepared source := by
  cases d with
  | fifo s => trivial
  | rounds s => exact h

/-- After a pass a discharger can begin another one, from any source. -/
theorem Prepared.run (h : d.Prepared source) (hne : source ≠ sink) {threshold fuel : Nat}
    (hrun : Discharger.run threshold fuel source sink d = .ok u e) (source' : g.Node) :
    e.Prepared source' := by
  rcases run_eq_ok hrun with ⟨s, t, rfl, rfl, -⟩ | ⟨s, t, rfl, rfl, hresult⟩
  · trivial
  · obtain ⟨hadded, hcapacity, -⟩ := h
    obtain ⟨hbetween, hempty, -⟩ := Rounds.between_of_run hresult
    have hkept := hbetween.kept hne hadded
    refine ⟨hkept.idle.added_eq, (Rounds.capacity_of_run hadded hne hresult).trans hcapacity, ?_⟩
    rw [hkept.lists.isEmpty_iff.mp hempty]
    exact List.not_mem_nil

theorem Between.spares (h : Between source sink d e) (hprepared : d.Prepared source)
    (hne : source ≠ sink) : e.Spares d.pass.toPreflow source sink := by
  cases h with
  | fifo h => exact (h.kept hne).spares
  | rounds h => exact (h.kept hne hprepared.1).spares

/-- However a pass ends, it has left its source alone. -/
theorem Prepared.leaves_run (h : d.Prepared source) (hne : source ≠ sink) (threshold fuel : Nat) :
    Leaves (Spares d.pass.toPreflow source sink) (Discharger.run threshold fuel source sink d) := by
  cases d with
  | fifo s =>
      rw [run_fifo, leaves_embedded_iff]
      exact Fifo.leaves_run threshold fuel s hne
  | rounds s =>
      rw [run_rounds, leaves_embedded_iff]
      exact Rounds.leaves_run threshold fuel h.1 h.2.2 h.2.1 hne

theorem Spares.record (h : d.Spares start source sink) (journal : Journal K) :
    (d.resume d.pass.toPreflow journal).Spares start source sink := by
  cases d with
  | fifo s => exact Fifo.spares h.leavesAlone h.label_eq h.not_waiting
  | rounds s => exact Rounds.spares h.leavesAlone h.label_eq h.not_waiting

end Discharger

end PushRelabel
