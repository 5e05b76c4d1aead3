import PushRelabel.Proofs.Pass
import PushRelabel.Proofs.Pass.Moved

/-! # No active node is lost

Between two discharges every active node other than the terminals is in the queue,
once. Sending to a node puts it there, and a discharge ends only when its own node
is not active any more. The terminals never enter the queue, so nothing is sent from
or to the source of a pass. None of this depends on the arithmetic.
-/

namespace PushRelabel.Fifo

variable {K : Type} {g : FlowGraph K} {source sink : g.Node} {s t : Fifo g}

structure Queues (source sink : g.Node) (s : Fifo g) : Prop where
  mem_iff : ∀ v : g.Node, v ∈ s.queue.toList ↔ s.queued[v] = true
  nodup : s.queue.toList.Nodup
  inner : ∀ v ∈ s.queue.toList, v ≠ source ∧ v ≠ sink

theorem toPass_enqueue (s : Fifo g) (v : g.Node) : (s.enqueue v).toPass = s.toPass := by
  unfold enqueue
  split <;> rfl

theorem gaps_enqueue (s : Fifo g) (v : g.Node) : (s.enqueue v).gaps = s.gaps := by
  unfold enqueue
  split <;> rfl

theorem Queues.mem_enqueue_iff (h : s.Queues source sink) (v u : g.Node) :
    u ∈ (s.enqueue v).queue.toList ↔ u ∈ s.queue.toList ∨ u = v := by
  unfold enqueue
  split
  next hqueued =>
    refine (or_iff_left_of_imp ?_).symm
    rintro rfl
    exact (h.mem_iff u).mpr hqueued
  next =>
    rw [Queue.toList_push, List.mem_append, List.mem_singleton]

theorem Queues.enqueue (h : s.Queues source sink) {v : g.Node} (hsource : v ≠ source)
    (hsink : v ≠ sink) : (s.enqueue v).Queues source sink := by
  have hmem := h.mem_enqueue_iff v
  refine ⟨fun u => ?_, ?_, fun u hu => ?_⟩
  · rw [hmem, h.mem_iff]
    unfold Fifo.enqueue
    split
    next hqueued =>
      apply or_iff_left_of_imp
      rintro rfl
      exact hqueued
    next =>
      rw [Vector.getElem_put]
      split
      next heq => simp [heq]
      next hne => simp [hne]
  · unfold Fifo.enqueue
    split
    next => exact h.nodup
    next hqueued =>
      rw [Queue.toList_push]
      refine List.nodup_append.mpr ⟨h.nodup, List.nodup_singleton v, fun u hu w hw heq => ?_⟩
      rw [heq, List.mem_singleton.mp hw] at hu
      exact hqueued ((h.mem_iff v).mp hu)
  · rcases (hmem u).mp hu with hold | rfl
    · exact h.inner u hold
    · exact ⟨hsource, hsink⟩

theorem toPass_foldl_enqueue (vs : List g.Node) (s : Fifo g) :
    (vs.foldl enqueue s).toPass = s.toPass := by
  induction vs generalizing s with
  | nil => rfl
  | cons v vs ih => rw [List.foldl_cons, ih, toPass_enqueue]

theorem gaps_foldl_enqueue (vs : List g.Node) (s : Fifo g) :
    (vs.foldl enqueue s).gaps = s.gaps := by
  induction vs generalizing s with
  | nil => rfl
  | cons v vs ih => rw [List.foldl_cons, ih, gaps_enqueue]

theorem Queues.foldl_enqueue (h : s.Queues source sink) {vs : List g.Node}
    (hvs : ∀ v ∈ vs, v ≠ source ∧ v ≠ sink) :
    (vs.foldl Fifo.enqueue s).Queues source sink ∧
      ∀ u, u ∈ (vs.foldl Fifo.enqueue s).queue.toList ↔ u ∈ s.queue.toList ∨ u ∈ vs := by
  induction vs generalizing s with
  | nil => exact ⟨h, fun u => by simp⟩
  | cons v vs ih =>
      obtain ⟨hsource, hsink⟩ := hvs v List.mem_cons_self
      obtain ⟨hqueues, hmem⟩ :=
        ih (h.enqueue hsource hsink) fun u hu => hvs u (List.mem_cons_of_mem v hu)
      refine ⟨hqueues, fun u => ?_⟩
      rw [List.foldl_cons, hmem, h.mem_enqueue_iff, List.mem_cons, or_assoc]

/-- What holds while a node is discharged, or between two discharges if none is. -/
structure Kept [Quantity K] (start : Preflow g) (source sink : g.Node) (busy : Option g.Node)
    (s : Fifo g) : Prop where
  leavesAlone : start.LeavesAlone source s.toPreflow
  queues : s.Queues source sink
  source_eq : s.labels[source] = g.nodeCount
  le_nodeCount : ∀ v : g.Node, s.labels[v] ≤ g.nodeCount
  tracks : s.gaps.Tracks s.labels
  waiting : ∀ v : g.Node, busy ≠ some v → v ≠ source → v ≠ sink → s.IsActive v →
    v ∈ s.queue.toList

variable [Quantity K]

theorem mem_candidates_iff {v : g.Node} {c : Nat × g.DartOf} :
    c ∈ s.candidates v ↔ c.2 ∈ g.darts v ∧ c.1 = s.labels[c.2.other] ∧ c.1 < g.nodeCount ∧
      0 < g.residual s.flow c.2 := by
  rcases c with ⟨label, d⟩
  simp only [candidates, List.mem_mergeSort, List.mem_filter, List.mem_map, Prod.mk.injEq,
    decide_eq_true_eq]
  constructor
  · rintro ⟨⟨e, he, rfl, rfl⟩, hlt, hresidual⟩
    exact ⟨he, rfl, hlt, hresidual⟩
  · rintro ⟨hd, hlabel, hlt, hresidual⟩
    exact ⟨⟨d, hd, hlabel.symm, rfl⟩, hlt, hresidual⟩

namespace Kept

variable {start : Preflow g} {busy : Option g.Node} {v : g.Node}

theorem congr (h : s.Kept start source sink busy) (hpreflow : t.toPreflow = s.toPreflow)
    (hgaps : t.gaps = s.gaps) (hqueue : t.queue = s.queue) (hqueued : t.queued = s.queued) :
    t.Kept start source sink busy := by
  rcases t with ⟨⟨p, search, work, tally, journal⟩, gaps, queue, queued⟩
  obtain rfl : p = s.toPreflow := hpreflow
  obtain rfl : gaps = s.gaps := hgaps
  obtain rfl : queue = s.queue := hqueue
  obtain rfl : queued = s.queued := hqueued
  exact ⟨h.leavesAlone, ⟨h.queues.mem_iff, h.queues.nodup, h.queues.inner⟩, h.source_eq,
    h.le_nodeCount, h.tracks, h.waiting⟩

theorem move (h : s.Kept start source sink busy) {label : Nat} {emptied : Bool}
    (hmoved : s.Moved v label t emptied) (hge : s.labels[v] ≤ label) (hle : label ≤ g.nodeCount) :
    t.Kept start source sink busy := by
  have hmono := hmoved.label_le hge h.le_nodeCount
  have hbound := hmoved.le_nodeCount hle h.le_nodeCount
  refine ⟨⟨fun i hi => ?_, ?_⟩, ⟨fun u => ?_, ?_, fun u hu => ?_⟩, ?_, hbound, hmoved.tracks,
    fun u hbusy hsource hsink hactive => ?_⟩
  · rw [hmoved.flow_eq]
    exact h.leavesAlone.flow_eq i hi
  · rw [hmoved.excess_eq]
    exact h.leavesAlone.excess_eq
  · rw [hmoved.queue_eq, hmoved.queued_eq]
    exact h.queues.mem_iff u
  · rw [hmoved.queue_eq]
    exact h.queues.nodup
  · rw [hmoved.queue_eq] at hu
    exact h.queues.inner u hu
  · exact le_antisymm (hbound source) (h.source_eq.ge.trans (hmono source))
  · rw [hmoved.queue_eq]
    obtain ⟨hexcess, hlabel⟩ := hactive
    rw [hmoved.excess_eq] at hexcess
    exact h.waiting u hbusy hsource hsink ⟨hexcess, (hmono u).trans_lt hlabel⟩

theorem raiseLabel (h : s.Kept start source sink busy) (v : g.Node) (label : Nat)
    (hle : label ≤ g.nodeCount) :
    (s.raiseLabel v label).1.Kept start source sink busy ∧
      ((s.raiseLabel v label).2 = true → (s.raiseLabel v label).1.labels[v] = g.nodeCount) := by
  unfold Fifo.raiseLabel
  split
  next hlt =>
    have hmoved := moved_setLabel h.tracks v label
    refine ⟨h.move hmoved hlt.le hle, fun hemptied => ?_⟩
    rw [hemptied] at hmoved
    exact hmoved.label_eq_of_emptied hlt hle
  next => exact ⟨h, nofun⟩

theorem send (h : s.Kept start source sink (some v)) {d : g.DartOf} (hd : d ∈ g.darts v)
    (hv : v ≠ source) (hother : d.other ≠ source) :
    (s.send sink v d).Kept start source sink (some v) := by
  have hsent := fun a => h.leavesAlone.send hd hv hother a
  -- only the ends of the dart can become active: one is busy, the other is put in the queue
  have hactive : ∀ (a : K) (u : g.Node), u ≠ v → u ≠ d.other →
      (s.toPreflow.send v d a).IsActive u → s.IsActive u := by
    rintro a u hu hne ⟨hexcess, hlabel⟩
    rw [Preflow.excess_send_of_ne _ _ _ hu hne] at hexcess
    exact ⟨hexcess, hlabel⟩
  unfold Fifo.send
  dsimp only
  split
  next hsink =>
    refine ⟨hsent _, ⟨h.queues.mem_iff, h.queues.nodup, h.queues.inner⟩, h.source_eq,
      h.le_nodeCount, h.tracks, fun u hbusy hsource hne hu => ?_⟩
    refine h.waiting u hbusy hsource hne (hactive _ u ?_ (hsink ▸ hne) hu)
    exact fun heq => hbusy (congrArg some heq.symm)
  next hsink =>
    set r : Fifo g := { s with
      toPreflow := s.toPreflow.send v d (Quantity.least s.excess[v] (g.residual s.flow d)) }
      with hr
    have hqueues : r.Queues source sink := ⟨h.queues.mem_iff, h.queues.nodup, h.queues.inner⟩
    have hpass := toPass_enqueue r d.other
    have hpreflow : (r.enqueue d.other).toPreflow = r.toPreflow := congrArg Pass.toPreflow hpass
    refine ⟨hpreflow ▸ hsent _, hqueues.enqueue hother hsink, ?_, ?_, ?_,
      fun u hbusy hsource hne hu => ?_⟩
    · rw [hpreflow]
      exact h.source_eq
    · rw [hpreflow]
      exact h.le_nodeCount
    · rw [hpreflow, gaps_enqueue]
      exact h.tracks
    · rw [hqueues.mem_enqueue_iff]
      rw [hpreflow] at hu
      by_cases heq : u = d.other
      · exact Or.inr heq
      · left
        refine h.waiting u hbusy hsource hne (hactive _ u ?_ heq hu)
        exact fun hself => hbusy (congrArg some hself.symm)

theorem scan {cs : List (Nat × g.DartOf)} (h : s.Kept start source sink (some v))
    (hv : v ≠ source) (hcs : ∀ c ∈ cs, c.2 ∈ g.darts v ∧ c.2.other ≠ source ∧ c.1 < g.nodeCount) :
    (scan sink v cs s).1.Kept start source sink (some v) ∧
      ((Fifo.scan sink v cs s).2 = true → (Fifo.scan sink v cs s).1.labels[v] = g.nodeCount) := by
  induction cs generalizing s with
  | nil => exact ⟨h, nofun⟩
  | cons c cs ih =>
      rcases c with ⟨label, d⟩
      obtain ⟨hd, hother, hlt⟩ := hcs _ List.mem_cons_self
      have hrest := fun c hc => hcs c (List.mem_cons_of_mem _ hc)
      obtain ⟨hraised, hretired⟩ := h.raiseLabel v (label + 1) hlt
      unfold Fifo.scan
      dsimp only
      split
      next hemptied => exact ⟨hraised, fun _ => hretired hemptied⟩
      next =>
        split
        next => exact ih hraised hrest
        next =>
          have hsent := hraised.send hd hv hother
          split
          next => exact ⟨hsent, nofun⟩
          next => exact ih hsent hrest

/-- A node that is not active need not wait. -/
theorem release (h : s.Kept start source sink (some v)) (hv : ¬ s.IsActive v) :
    s.Kept start source sink none := by
  refine ⟨h.leavesAlone, h.queues, h.source_eq, h.le_nodeCount, h.tracks,
    fun u _ hsource hsink hactive => h.waiting u (fun heq => ?_) hsource hsink hactive⟩
  exact hv (Option.some.inj heq ▸ hactive)

/-- The source has the sentinel as its label, so no candidate leads there. -/
theorem of_mem_candidates {busy : Option g.Node} (h : s.Kept start source sink busy)
    {c : Nat × g.DartOf} (hc : c ∈ s.candidates v) :
    c.2 ∈ g.darts v ∧ c.2.other ≠ source ∧ c.1 < g.nodeCount := by
  obtain ⟨hd, hlabel, hlt, -⟩ := mem_candidates_iff.mp hc
  refine ⟨hd, fun heq => ?_, hlt⟩
  have hsource : s.labels[c.2.other] = g.nodeCount := by
    simp only [heq]
    exact h.source_eq
  exact hlt.ne (hlabel.trans hsource)

theorem scan_candidates (h : s.Kept start source sink (some v)) (hv : v ≠ source) :
    (Fifo.scan sink v (s.candidates v) s).1.Kept start source sink (some v) ∧
      ((Fifo.scan sink v (s.candidates v) s).2 = true →
        (Fifo.scan sink v (s.candidates v) s).1.labels[v] = g.nodeCount) :=
  h.scan hv fun _ => h.of_mem_candidates

theorem discharge (h : s.Kept start source sink (some v)) (hv : v ≠ source) :
    (s.discharge sink v).Kept start source sink none := by
  obtain ⟨hscanned, hretired⟩ := h.scan_candidates hv
  unfold Fifo.discharge
  dsimp only
  split
  next =>
    have hmoved := moved_setLabel hscanned.tracks v g.nodeCount
    refine (hscanned.move hmoved (hscanned.le_nodeCount v) le_rfl).release fun hactive => ?_
    exact hactive.2.ne hmoved.label_eq_of_sentinel
  next hdone =>
    refine hscanned.release fun hactive => ?_
    cases hresult : (Fifo.scan sink v (s.candidates v) s).2 with
    | false => exact hdone ⟨hresult, hactive.1⟩
    | true => exact hactive.2.ne (hretired hresult)

end Kept

/-! ## Steps -/

/-- A queue from which a node was taken. -/
def taken (s : Fifo g) (v : g.Node) (queue : Queue g.Node) : Fifo g :=
  { s with queue := queue, queued := s.queued.put v false }

/-- A discharge of a node that is counted. -/
def counted (s : Fifo g) (v : g.Node) : Fifo g :=
  { s with
    tally := { s.tally with discharges := s.tally.discharges + 1 }
    work := s.work + Pass.effort g v }

/-- A step ends the pass if the queue is empty. Otherwise it takes a node out, and
discharges it unless it is retired; then it may recompute the labels. -/
theorem step_eq_ok {threshold : Nat} {again : Bool}
    (h : step threshold source sink s = .ok again t) :
    (again = false ∧ t = s ∧ s.queue.toList = []) ∨
      again = true ∧ ∃ v queue, s.queue.pop? = some (v, queue) ∧
        ((g.nodeCount ≤ s.labels[v] ∧ t = s.taken v queue) ∨
          (s.labels[v] < g.nodeCount ∧
            (t = ((s.taken v queue).discharge sink v).counted v ∨
              threshold < (((s.taken v queue).discharge sink v).counted v).work ∧
                relabel source sink (((s.taken v queue).discharge sink v).counted v) =
                  .ok () t))) := by
  unfold step at h
  rw [get_bind] at h
  cases hpop : s.queue.pop? with
  | none =>
      rw [hpop] at h
      obtain ⟨rfl, rfl⟩ := pure_eq_ok_iff.mp h
      exact Or.inl ⟨rfl, rfl, Queue.pop?_eq_none_iff.mp hpop⟩
  | some next =>
      rcases next with ⟨v, queue⟩
      rw [hpop] at h
      dsimp only at h
      rw [modify_bind, get_bind] at h
      apply Or.inr
      split at h
      next hlt =>
        rw [get_bind] at h
        obtain ⟨_, s₂, hrunning, h⟩ := bind_eq_ok_iff.mp h
        obtain ⟨-, rfl⟩ := checkRunning_eq_ok_iff.mp hrunning
        rw [modify_bind, get_bind] at h
        split at h
        next hwork =>
          obtain ⟨_, s₄, hrelabel, h⟩ := bind_eq_ok_iff.mp h
          obtain ⟨rfl, rfl⟩ := pure_eq_ok_iff.mp h
          exact ⟨rfl, v, queue, rfl, Or.inr ⟨hlt, Or.inr ⟨hwork, hrelabel⟩⟩⟩
        next =>
          obtain ⟨rfl, rfl⟩ := pure_eq_ok_iff.mp h
          exact ⟨rfl, v, queue, rfl, Or.inr ⟨hlt, Or.inl rfl⟩⟩
      next hge =>
        obtain ⟨rfl, rfl⟩ := pure_eq_ok_iff.mp h
        exact ⟨rfl, v, queue, rfl, Or.inl ⟨not_lt.mp hge, rfl⟩⟩

/-- After the labels were recomputed, whatever they were, all active nodes wait, and the
nodes that waited before. -/
theorem relabel_eq_ok {start : Preflow g} (hne : source ≠ sink)
    (hstart : start.LeavesAlone source s.toPreflow) (hqueues : s.Queues source sink) {u : Unit}
    (h : relabel source sink s = .ok u t) :
    t.flow = s.flow ∧ t.excess = s.excess ∧ g.ExactLabels t.flow t.labels source sink ∧
      t.Kept start source sink none ∧
      ∀ v, v ∈ t.queue.toList ↔ v ∈ s.queue.toList ∨ v ∈ t.active source sink := by
  unfold relabel at h
  obtain ⟨_, s₁, hpart, h⟩ := bind_eq_ok_iff.mp h
  obtain rfl := modify_eq_ok_iff.mp h
  obtain ⟨p, hpass, rfl⟩ := onPart_eq_ok_iff.mp hpart
  obtain ⟨hflow, hexcess, hexact⟩ := Pass.relabel_eq_ok hne hpass
  -- the queue is not cleared, and nodes that were in it need not be active any more
  set r : Fifo g := { s with toPass := p, gaps := s.gaps.reset p.labels.toArray } with hr
  have hrqueues : r.Queues source sink := ⟨hqueues.mem_iff, hqueues.nodup, hqueues.inner⟩
  have hinner : ∀ v ∈ p.active source sink, v ≠ source ∧ v ≠ sink := by
    intro v hv
    obtain ⟨hsource, hsink, -⟩ := Preflow.mem_active.mp hv
    exact ⟨hsource, hsink⟩
  obtain ⟨hdone, hmem⟩ := hrqueues.foldl_enqueue hinner
  have hpreflow : ((p.active source sink).foldl enqueue r).toPass = p := toPass_foldl_enqueue _ r
  have hgaps := gaps_foldl_enqueue (p.active source sink) r
  refine ⟨by rw [hpreflow, hflow], by rw [hpreflow, hexcess], by rw [hpreflow]; exact hexact,
    ⟨⟨fun i hi => ?_, ?_⟩, hdone, ?_, ?_, ?_, fun v _ hsource hsink hactive => ?_⟩,
    by rw [hpreflow]; exact hmem⟩
  · rw [hpreflow, hflow]
    exact hstart.flow_eq i hi
  · rw [hpreflow, hexcess]
    exact hstart.excess_eq
  · rw [hpreflow]
    exact hexact.source_eq
  · rw [hpreflow]
    exact hexact.le_nodeCount
  · rw [hpreflow, hgaps]
    exact GapDetector.tracks_reset s.gaps p.labels
  · rw [hpreflow] at hactive
    exact (hmem v).mpr (Or.inr (Preflow.mem_active.mpr ⟨hsource, hsink, hactive⟩))

namespace Kept

variable {start : Preflow g} {v : g.Node}

theorem taken (h : s.Kept start source sink none) {queue : Queue g.Node}
    (hpop : s.queue.pop? = some (v, queue)) :
    v ≠ source ∧ v ≠ sink ∧ (s.taken v queue).Kept start source sink (some v) := by
  have hlist := Queue.toList_of_pop? hpop
  have hnodup := hlist ▸ h.queues.nodup
  obtain ⟨hnotMem, hrest⟩ := List.nodup_cons.mp hnodup
  obtain ⟨hsource, hsink⟩ := h.queues.inner v (hlist ▸ List.mem_cons_self)
  refine ⟨hsource, hsink, h.leavesAlone, ⟨fun u => ?_, hrest, fun u hu => ?_⟩, h.source_eq,
    h.le_nodeCount, h.tracks, fun u hbusy hsource hsink hactive => ?_⟩
  · have hmem := h.queues.mem_iff u
    change u ∈ queue.toList ↔ (s.queued.put v false)[u] = true
    rw [Vector.getElem_put]
    rw [hlist, List.mem_cons] at hmem
    by_cases hu : u = v
    · subst hu
      simp [hnotMem]
    · rw [if_neg hu, ← hmem, or_iff_right hu]
  · exact h.queues.inner u (hlist ▸ List.mem_cons_of_mem v hu)
  · have hmem := h.waiting u nofun hsource hsink hactive
    rw [hlist, List.mem_cons] at hmem
    exact hmem.resolve_left fun heq => hbusy (congrArg some heq.symm)

theorem counted (h : s.Kept start source sink none) (v : g.Node) :
    (s.counted v).Kept start source sink none :=
  h.congr rfl rfl rfl rfl

end Kept

/-! ## Between two discharges -/

/-- A state in which no node waits. -/
def cleared (s : Fifo g) : Fifo g :=
  { s with queue := .empty, queued := Vector.replicate g.nodeCount false }

/-- The states between two discharges of a pass that starts from a given state: after the
labels were recomputed, after a node was passed over, and after a discharge, whether or not
the labels are recomputed next. -/
inductive Between (threshold : Nat) (source sink : g.Node) (s : Fifo g) : Fifo g → Prop
  | started {t : Fifo g} (journal : Journal K)
      (hrelabel : relabel source sink s.cleared = .ok () t) :
      Between threshold source sink s { t with journal := journal }
  | passedOver {t : Fifo g} {v : g.Node} {queue : Queue g.Node}
      (ht : Between threshold source sink s t) (hpop : t.queue.pop? = some (v, queue))
      (hretired : g.nodeCount ≤ t.labels[v]) :
      Between threshold source sink s (t.taken v queue)
  | discharged {t : Fifo g} {v : g.Node} {queue : Queue g.Node}
      (ht : Between threshold source sink s t) (hpop : t.queue.pop? = some (v, queue))
      (hlabel : t.labels[v] < g.nodeCount) :
      Between threshold source sink s (((t.taken v queue).discharge sink v).counted v)
  | relabelled {t r : Fifo g} (ht : Between threshold source sink s t)
      (hwork : threshold < t.work) (hrelabel : relabel source sink t = .ok () r) :
      Between threshold source sink s r

/-- A run starts by recomputing the labels, with an empty queue. -/
theorem run_eq_relabel {threshold fuel : Nat} {u : Unit}
    (h : run threshold fuel source sink s = .ok u t) :
    ∃ r journal, relabel source sink s.cleared = .ok () r ∧
      iterate (step threshold source sink) fuel { r with journal := journal } = .ok u t := by
  unfold run at h
  rw [modify_bind] at h
  obtain ⟨_, s₂, hrelabel, h⟩ := bind_eq_ok_iff.mp h
  rw [modify_bind] at h
  exact ⟨s₂, _, hrelabel, h⟩

omit [Quantity K] in
theorem queues_cleared (s : Fifo g) : s.cleared.Queues source sink :=
  ⟨fun v => by simp [cleared], by simp [cleared], by simp [cleared]⟩

namespace Between

variable {r : Fifo g} {threshold : Nat}

/-- A step leads from a state between two discharges to another one. -/
theorem step (h : Between threshold source sink s t) {again : Bool}
    (hstep : Fifo.step threshold source sink t = .ok again r) :
    Between threshold source sink s r := by
  rcases step_eq_ok hstep with ⟨-, rfl, -⟩ | ⟨-, v, queue, hpop, ⟨hretired, rfl⟩ | ⟨hlabel, hcase⟩⟩
  · exact h
  · exact h.passedOver hpop hretired
  · rcases hcase with rfl | ⟨hwork, hrelabel⟩
    · exact h.discharged hpop hlabel
    · exact (h.discharged hpop hlabel).relabelled hwork hrelabel

theorem kept (h : Between threshold source sink s t) (hne : source ≠ sink) :
    t.Kept s.toPreflow source sink none := by
  induction h with
  | started journal hrelabel =>
      obtain ⟨-, -, -, hkept, -⟩ :=
        relabel_eq_ok hne (Preflow.leavesAlone_refl _ source) (queues_cleared s) hrelabel
      exact hkept.congr rfl rfl rfl rfl
  | passedOver _ hpop hretired ih =>
      obtain ⟨-, -, htaken⟩ := ih.taken hpop
      exact htaken.release fun hactive => hactive.2.not_ge hretired
  | discharged _ hpop _ ih =>
      obtain ⟨hsource, -, htaken⟩ := ih.taken hpop
      exact (htaken.discharge hsource).counted _
  | relabelled _ _ hrelabel ih =>
      obtain ⟨-, -, -, hkept, -⟩ := relabel_eq_ok hne ih.leavesAlone ih.queues hrelabel
      exact hkept

end Between

/-- When a run ends, no node waits. -/
theorem between_of_run {threshold fuel : Nat} {u : Unit}
    (h : run threshold fuel source sink s = .ok u t) :
    Between threshold source sink s t ∧ t.queue.toList = [] := by
  obtain ⟨r, journal, hrelabel, hloop⟩ := run_eq_relabel h
  obtain ⟨q, hq, hlast⟩ := iterate_invariant (Between threshold source sink s)
    (fun _ _ hq hstep => hq.step hstep) (.started journal hrelabel) hloop
  rcases step_eq_ok hlast with ⟨-, rfl, hempty⟩ | ⟨htrue, -⟩
  · exact ⟨hq, hempty⟩
  · exact absurd htrue Bool.false_ne_true

end PushRelabel.Fifo
