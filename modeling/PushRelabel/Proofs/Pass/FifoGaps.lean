import PushRelabel.Proofs.Gap.Agreement
import PushRelabel.Proofs.Halting
import PushRelabel.Proofs.Lockstep
import PushRelabel.Proofs.Pass.Queueing

/-! # First-in, first-out passes with any detector

Two passes that start alike, each with a detector that detects gaps, run in lockstep. Their
detectors need not agree before the first relabelling, which starts them again, and both follow
the labels from then on. So they report the same gaps, and the same nodes are discharged in the
same order.
-/

namespace PushRelabel

section Journals

variable {K : Type}

/-- An event that does not tell how gaps are detected. -/
def Event.anonymous : Event K → Event K
  | .gapsDetected _ => .gapsDetected .none
  | e => e

def Journal.anonymous (j : Journal K) : Journal K := { j with events := j.events.map .anonymous }

theorem Journal.anonymous_record (j : Journal K) (e : Event K) :
    (j.record e).anonymous = j.anonymous.record e.anonymous := by
  simp [anonymous, record]

theorem Journal.anonymous_foldl_record (events : List (Event K)) (j : Journal K) :
    (events.foldl record j).anonymous = (events.map .anonymous).foldl record j.anonymous := by
  induction events generalizing j with
  | nil => rfl
  | cons e events ih => rw [List.foldl_cons, ih, anonymous_record, List.map_cons, List.foldl_cons]

end Journals

namespace Pass

variable {K : Type} {g : FlowGraph K} {p q : Pass g}

def anonymous (p : Pass g) : Pass g := { p with journal := p.journal.anonymous }

theorem anonymous_record (p : Pass g) (e : Event K) :
    (p.record e).anonymous = p.anonymous.record e.anonymous :=
  congrArg (fun journal : Journal K => { p with journal := journal }) (p.journal.anonymous_record e)

/-- Passes that differ at most in how they say that gaps are detected. -/
structure Alike (p q : Pass g) : Prop where
  anonymous_eq : p.anonymous = q.anonymous

theorem Alike.record (h : p.Alike q) (e : Event K) : (p.record e).Alike (q.record e) := by
  constructor
  rw [anonymous_record, anonymous_record, h.anonymous_eq]

variable [Quantity K]

theorem lockstep_relabel (source sink : g.Node) (h : p.Alike q) :
    Lockstep Alike Alike (relabel source sink p) (relabel source sink q) := by
  unfold relabel
  refine Lockstep.bind (.modify (h.record .relabelStarted)) fun _ p q hpq => Lockstep.get ?_
  have hsearch : Search.run g p.flow p.running source sink (p.search, p.labels) =
      Search.run g q.flow q.running source sink (q.search, q.labels) :=
    (congrArg (fun r : Pass g => Search.run g r.flow r.running source sink (r.search, r.labels))
      hpq.anonymous_eq :)
  have hupdate : ∀ r r' : Search g.nodeCount × Vector Nat g.nodeCount, r = r' →
      Alike { p with search := r.1, labels := r.2 } { q with search := r'.1, labels := r'.2 } := by
    rintro r _ rfl
    exact ⟨congrArg (fun p : Pass g => { p with search := r.1, labels := r.2 }) hpq.anonymous_eq⟩
  refine Lockstep.bind (.onPart (hsearch ▸ Lockstep.refl) hupdate hupdate)
    fun largest p q hpq => .modify ?_
  exact ⟨congrArg (fun p : Pass g =>
    { p with
      tally := { p.tally with globalRelabelings := p.tally.globalRelabelings + 1 }, work := 0 })
    (hpq.record (.relabelFinished largest)).anonymous_eq⟩

end Pass

namespace Fifo

variable {K : Type} {g : FlowGraph K} {s t : Fifo g}

/-- A pass without its detector. -/
def bare (s : Fifo g) : Fifo g := { s with toPass := s.toPass.anonymous, gaps := .none }

/-- Passes that differ in their detectors only, each of which detects gaps. -/
structure Alike (s t : Fifo g) : Prop where
  bare_eq : s.bare = t.bare
  left : s.gaps ≠ .none
  right : t.gaps ≠ .none

theorem alike_start {a b : GapStrategy} (ha : a ≠ .none) (hb : b ≠ .none) (p : Pass g) :
    (start a p).Alike (start b p) :=
  ⟨rfl, GapDetector.ofStrategy_ne_none ha, GapDetector.ofStrategy_ne_none hb⟩

/-- Passes that differ in their detectors only, each of which follows the labels. -/
structure Twins (s t : Fifo g) : Prop where
  bare_eq : s.bare = t.bare
  left : s.gaps.Follows s.labels
  right : t.gaps.Follows t.labels

theorem bare_record (s : Fifo g) (e : Event K) :
    bare { s with journal := s.journal.record e } =
      { s.bare with journal := s.bare.journal.record e.anonymous } :=
  congrArg (fun journal : Journal K => { s.bare with journal := journal })
    (s.journal.anonymous_record e)

theorem Alike.record (h : s.Alike t) (e : Event K) :
    Alike { s with journal := s.journal.record e } { t with journal := t.journal.record e } := by
  refine ⟨?_, h.left, h.right⟩
  rw [bare_record, bare_record, h.bare_eq]

theorem bare_enqueue (s : Fifo g) (v : g.Node) : (s.enqueue v).bare = s.bare.enqueue v := by
  unfold enqueue
  change (if s.queued[v] then _ else _ : Fifo g).bare = if s.queued[v] then _ else _
  split <;> rfl

namespace Twins

theorem alike (h : s.Twins t) : s.Alike t := ⟨h.bare_eq, h.left.detects, h.right.detects⟩

theorem pass_eq (h : s.Twins t) : s.toPass.anonymous = t.toPass.anonymous :=
  (congrArg (fun r : Fifo g => r.toPass) h.bare_eq :)

theorem preflow_eq (h : s.Twins t) : s.toPreflow = t.toPreflow :=
  (congrArg (fun p : Pass g => p.toPreflow) h.pass_eq :)

theorem labels_eq (h : s.Twins t) : s.labels = t.labels := by
  rw [h.preflow_eq]

/-- What does not touch the detectors or the labels keeps passes alike. -/
theorem map {f : Fifo g → Fifo g} (h : s.Twins t) (hbare : ∀ s, (f s).bare = f s.bare)
    (hgaps : ∀ s, (f s).gaps = s.gaps) (hlabels : ∀ s, (f s).labels = s.labels) :
    (f s).Twins (f t) := by
  refine ⟨?_, ?_, ?_⟩
  · rw [hbare, hbare, h.bare_eq]
  · rw [hgaps, hlabels]
    exact h.left
  · rw [hgaps, hlabels]
    exact h.right

theorem enqueue (h : s.Twins t) (v : g.Node) : (s.enqueue v).Twins (t.enqueue v) :=
  h.map (fun s => s.bare_enqueue v) (fun s => s.gaps_enqueue v)
    fun s => congrArg (fun p : Pass g => p.labels) (s.toPass_enqueue v)

theorem record (h : s.Twins t) (e : Event K) :
    Twins { s with journal := s.journal.record e } { t with journal := t.journal.record e } :=
  ⟨(h.alike.record e).bare_eq, h.left, h.right⟩

theorem foldl_enqueue (h : s.Twins t) (vs : List g.Node) :
    (vs.foldl Fifo.enqueue s).Twins (vs.foldl Fifo.enqueue t) := by
  induction vs generalizing s t with
  | nil => exact h
  | cons v vs ih => exact ih (h.enqueue v)

/-- The same nodes are retired, and so the same number of them is reported. -/
theorem retireAbove (h : s.Twins t) (gap : Nat) :
    (s.retireAbove gap).Twins (t.retireAbove gap) := by
  have hlabels : (s.retireAbove gap).labels = (t.retireAbove gap).labels := by
    refine Vector.ext_fin fun u => ?_
    rw [labels_retireAbove h.left.tracks h.left.detects,
      labels_retireAbove h.right.tracks h.right.detects, h.labels_eq]
  have hcount : (s.gaps.takeAbove gap s.labels.toArray).2.length =
      (t.gaps.takeAbove gap t.labels.toArray).2.length := by
    have hleft := h.left
    rw [h.labels_eq] at hleft ⊢
    exact (hleft.taken_perm h.right gap).length_eq
  have hbare : ∀ s : Fifo g, (s.retireAbove gap).bare =
      { s.bare with
        labels := (s.retireAbove gap).labels
        tally := { s.bare.tally with gapRelabelings := s.bare.tally.gapRelabelings + 1 }
        journal := s.bare.journal.record
          (.gapFound gap (s.gaps.takeAbove gap s.labels.toArray).2.length) } := fun s =>
    bare_record
      { s with
        labels := (s.retireAbove gap).labels
        tally := { s.tally with gapRelabelings := s.tally.gapRelabelings + 1 } } _
  refine ⟨?_, h.left.takeAbove (labels_retireAbove h.left.tracks h.left.detects gap),
    h.right.takeAbove (labels_retireAbove h.right.tracks h.right.detects gap)⟩
  rw [hbare, hbare, hlabels, hcount, h.bare_eq]

/-- Nodes move to other labels in lockstep, and leave the same gaps. -/
theorem setLabel (h : s.Twins t) (v : g.Node) (label : Nat) :
    (s.setLabel v label).1.Twins (t.setLabel v label).1 ∧
      (s.setLabel v label).2 = (t.setLabel v label).2 := by
  have hold : t.labels[v] = s.labels[v] := by rw [h.labels_eq]
  have hemptied : (t.gaps.move v t.labels[v] label).2 = (s.gaps.move v s.labels[v] label).2 := by
    have hleft := h.left
    rw [h.labels_eq] at hleft ⊢
    exact h.right.emptied_eq hleft v label
  have hmoved : Twins
      { s with
        labels := s.labels.put v label, gaps := (s.gaps.move v s.labels[v] label).1 }
      { t with
        labels := t.labels.put v label, gaps := (t.gaps.move v t.labels[v] label).1 } := by
    refine ⟨?_, h.left.move v label, h.right.move v label⟩
    exact (congrArg (fun r : Fifo g => { r with labels := r.labels.put v label }) h.bare_eq :)
  unfold Fifo.setLabel
  dsimp only
  rw [hemptied]
  split
  next =>
    refine ⟨?_, rfl⟩
    rw [hold] at hmoved ⊢
    exact hmoved.retireAbove _
  next => exact ⟨hmoved, rfl⟩

theorem raiseLabel (h : s.Twins t) (v : g.Node) (label : Nat) :
    (s.raiseLabel v label).1.Twins (t.raiseLabel v label).1 ∧
      (s.raiseLabel v label).2 = (t.raiseLabel v label).2 := by
  have hold : t.labels[v] = s.labels[v] := by rw [h.labels_eq]
  unfold Fifo.raiseLabel
  rw [hold]
  split
  · exact h.setLabel v label
  · exact ⟨h, rfl⟩

variable [Quantity K]

theorem send (h : s.Twins t) (sink v : g.Node) (d : g.DartOf) :
    (s.send sink v d).Twins (t.send sink v d) := by
  let sent (s : Fifo g) : Fifo g :=
    { s with
      toPreflow := s.toPreflow.send v d (Quantity.least s.excess[v] (g.residual s.flow d)) }
  have hsent : (sent s).Twins (sent t) :=
    h.map (fun _ => rfl) (fun _ => rfl) fun s => Preflow.labels_send s.toPreflow v d _
  unfold Fifo.send
  dsimp only
  split
  · exact hsent
  · exact hsent.enqueue d.other

theorem scan (h : s.Twins t) (sink v : g.Node) (cs : List (Nat × g.DartOf)) :
    (scan sink v cs s).1.Twins (scan sink v cs t).1 ∧
      (scan sink v cs s).2 = (scan sink v cs t).2 := by
  induction cs generalizing s t with
  | nil => exact ⟨h, rfl⟩
  | cons c cs ih =>
      obtain ⟨hraised, hretired⟩ := h.raiseLabel v (c.1 + 1)
      have hsent := hraised.send sink v c.2
      unfold Fifo.scan
      dsimp only
      rw [hretired, hraised.preflow_eq, hsent.preflow_eq]
      split
      next => exact ⟨hraised, rfl⟩
      next =>
        split
        next => exact ih hraised
        next =>
          split
          next => exact ⟨hsent, rfl⟩
          next => exact ih hsent

theorem discharge (h : s.Twins t) (sink v : g.Node) :
    (s.discharge sink v).Twins (t.discharge sink v) := by
  have hcandidates : s.candidates v = t.candidates v :=
    (congrArg (fun r : Fifo g => r.candidates v) h.bare_eq :)
  obtain ⟨hscanned, hretired⟩ := h.scan sink v (s.candidates v)
  unfold Fifo.discharge
  dsimp only
  rw [← hcandidates, hretired, hscanned.preflow_eq]
  split
  · exact (hscanned.setLabel v g.nodeCount).1
  · exact hscanned

end Twins

variable [Quantity K] {source sink : g.Node}

/-- The detectors start again from the new labels, whatever they kept before. -/
theorem Alike.lockstep_relabel (h : s.Alike t) (source sink : g.Node) :
    Lockstep Alike Twins (relabel source sink s) (relabel source sink t) := by
  have hpass : s.toPass.Alike t.toPass :=
    ⟨(congrArg (fun r : Fifo g => r.toPass) h.bare_eq :)⟩
  have hupdate : ∀ p q : Pass g, p.Alike q →
      Alike { s with toPass := p } { t with toPass := q } := by
    intro p q hpq
    refine ⟨?_, h.left, h.right⟩
    calc bare { s with toPass := p } = { s.bare with toPass := p.anonymous } := rfl
      _ = { t.bare with toPass := q.anonymous } := by rw [h.bare_eq, hpq.anonymous_eq]
      _ = bare { t with toPass := q } := rfl
  unfold relabel
  refine Lockstep.bind (.onPart (Pass.lockstep_relabel source sink hpass) hupdate hupdate)
    fun _ p q hpq => .modify ?_
  have hactive : p.active source sink = q.active source sink :=
    (congrArg (fun r : Fifo g => r.active source sink) hpq.bare_eq :)
  rw [hactive]
  have hreset : Twins { p with gaps := p.gaps.reset p.labels.toArray }
      { q with gaps := q.gaps.reset q.labels.toArray } :=
    ⟨hpq.bare_eq, GapDetector.follows_reset hpq.left p.labels,
      GapDetector.follows_reset hpq.right q.labels⟩
  exact hreset.foldl_enqueue _

theorem Twins.lockstep_step (h : s.Twins t) (threshold : Nat) (source sink : g.Node) :
    Lockstep Alike Twins (step threshold source sink s) (step threshold source sink t) := by
  have hqueue : s.queue = t.queue := (congrArg (fun r : Fifo g => r.queue) h.bare_eq :)
  unfold step
  refine Lockstep.get ?_
  rw [hqueue]
  cases hpop : t.queue.pop? with
  | none => exact .ok false h
  | some next =>
      rcases next with ⟨v, queue⟩
      have htaken : (s.taken v queue).Twins (t.taken v queue) :=
        h.map (f := fun s => s.taken v queue) (fun _ => rfl) (fun _ => rfl) fun _ => rfl
      refine Lockstep.bind (.modify htaken) fun _ p q hpq => Lockstep.get ?_
      rw [hpq.preflow_eq]
      split
      next =>
        have hrunning : p.running = q.running :=
          (congrArg (fun r : Fifo g => r.running) hpq.bare_eq :)
        refine Lockstep.get ?_
        rw [hrunning]
        refine Lockstep.bind (.checkRunning q.running hpq hpq.alike) fun _ p q hpq => ?_
        have hcounted : ((p.discharge sink v).counted v).Twins ((q.discharge sink v).counted v) :=
          (hpq.discharge sink v).map (f := fun s => s.counted v)
            (fun _ => rfl) (fun _ => rfl) fun _ => rfl
        refine Lockstep.bind (.modify hcounted) fun _ p q hpq => Lockstep.get ?_
        have hwork : p.work = q.work := (congrArg (fun r : Fifo g => r.work) hpq.bare_eq :)
        dsimp only
        rw [hwork]
        split
        next =>
          exact (hpq.alike.lockstep_relabel source sink).bind fun _ _ _ hpq => .ok true hpq
        next => exact .ok true hpq
      next => exact .ok true hpq

/-! ## What is discharged -/

/-- The node that the next step discharges. -/
def next? (s : Fifo g) : Option g.Node :=
  match s.queue.pop? with
  | none => none
  | some (v, _) => if s.labels[v] < g.nodeCount ∧ s.running = true then some v else none

theorem step_of_next (threshold : Nat) {v : g.Node} (h : s.next? = some v) :
    ∃ queue, s.queue.pop? = some (v, queue) ∧
      step threshold source sink s = (do
        modify fun s => (s.discharge sink v).counted v
        if threshold < (← get).work then relabel source sink
        return true : EStateM Halt (Fifo g) Bool) (s.taken v queue) := by
  unfold next? at h
  cases hpop : s.queue.pop? with
  | none => simp [hpop] at h
  | some next =>
      rcases next with ⟨u, queue⟩
      simp only [hpop, Option.ite_none_right_eq_some, Option.some.injEq] at h
      obtain ⟨⟨hlabel, hrunning⟩, rfl⟩ := h
      have hchecked : (checkRunning s.running : EStateM Halt (Fifo g) Unit) (s.taken u queue) =
          .ok () (s.taken u queue) := checkRunning_eq_ok_iff.mpr ⟨hrunning, rfl⟩
      refine ⟨queue, rfl, ?_⟩
      unfold step
      refine (bind_of_ok rfl).trans ?_
      rw [hpop]
      refine (bind_of_ok rfl).trans ((bind_of_ok rfl).trans ?_)
      rw [if_pos hlabel]
      exact (bind_of_ok rfl).trans (bind_of_ok hchecked)

/-- A step that discharges no node ends the pass, passes a node over, or is interrupted. -/
theorem step_of_next_eq_none (threshold : Nat) (h : s.next? = none) :
    step threshold source sink s = .ok false s ∨ ∃ v queue, s.queue.pop? = some (v, queue) ∧
      (step threshold source sink s = .ok true (s.taken v queue) ∨
        step threshold source sink s = .error .interrupted (s.taken v queue)) := by
  unfold next? at h
  unfold step
  cases hpop : s.queue.pop? with
  | none =>
      refine Or.inl ((bind_of_ok rfl).trans ?_)
      rw [hpop]
      rfl
  | some next =>
      rcases next with ⟨v, queue⟩
      refine Or.inr ⟨v, queue, rfl, ?_⟩
      have hnone : s.labels[v] < g.nodeCount → s.running = false := by simpa [hpop] using h
      -- a node below the sentinel is discharged unless the pass was stopped
      by_cases hlabel : s.labels[v] < g.nodeCount
      · have hstopped := hnone hlabel
        refine Or.inr ((bind_of_ok rfl).trans ?_)
        rw [hpop]
        refine (bind_of_ok rfl).trans ((bind_of_ok rfl).trans ?_)
        rw [if_pos hlabel]
        refine (bind_of_ok rfl).trans (bind_of_error ?_)
        change (checkRunning s.running : EStateM Halt (Fifo g) Unit) _ = _
        rw [hstopped]
        rfl
      · refine Or.inl ((bind_of_ok rfl).trans ?_)
        rw [hpop]
        refine (bind_of_ok rfl).trans ((bind_of_ok rfl).trans ?_)
        rw [if_neg hlabel]
        rfl

/-- The nodes that a loop discharges, each with the preflow in which it does. -/
def dischargesFrom (threshold fuel : Nat) (source sink : g.Node) (s : Fifo g) :
    List (g.Node × Preflow g) :=
  (visited (step threshold source sink) fuel s).filterMap fun s =>
    s.next?.map fun v => (v, s.toPreflow)

/-- What a pass does before it discharges the first node. -/
def begin (source sink : g.Node) : EStateM Halt (Fifo g) Unit := do
  modify cleared
  relabel source sink
  modify fun s =>
    { s with journal := s.journal.record (.dischargeStarted .sequential s.queue.length sink) }

/-- The nodes that a pass discharges, each with the preflow in which it does. -/
def discharges (threshold fuel : Nat) (source sink : g.Node) (s : Fifo g) :
    List (g.Node × Preflow g) :=
  match begin source sink s with
  | .ok _ t => dischargesFrom threshold fuel source sink t
  | .error _ _ => []

theorem run_eq_begin_bind (threshold fuel : Nat) (source sink : g.Node) :
    run threshold fuel source sink =
      begin source sink >>= fun _ => iterate (step threshold source sink) fuel := by
  simp only [begin, run, bind_assoc]
  rfl

theorem between_of_begin {threshold : Nat} (h : begin source sink s = .ok () t) :
    Between threshold source sink s t := by
  unfold begin at h
  rw [modify_bind] at h
  obtain ⟨_, s₂, hrelabel, h⟩ := bind_eq_ok_iff.mp h
  obtain rfl := modify_eq_ok_iff.mp h
  exact .started _ hrelabel

theorem Twins.dischargesFrom_eq (h : s.Twins t) (threshold fuel : Nat) :
    dischargesFrom threshold fuel source sink s = dischargesFrom threshold fuel source sink t := by
  have hvisited := Lockstep.visited fuel
    (fun (p q : Fifo g) (hpq : p.Twins q) => hpq.lockstep_step threshold source sink) h
  unfold dischargesFrom
  generalize visited (step threshold source sink) fuel s = ps at hvisited ⊢
  generalize visited (step threshold source sink) fuel t = qs at hvisited ⊢
  induction hvisited with
  | nil => rfl
  | @cons p q _ _ hpq _ ih =>
      have hnext : (p.next?.map fun v => (v, p.toPreflow)) =
          q.next?.map fun v => (v, q.toPreflow) :=
        (congrArg (fun r : Fifo g => r.next?.map fun v => (v, r.toPreflow)) hpq.bare_eq :)
      rw [List.filterMap_cons, List.filterMap_cons, ih, hnext]

theorem Alike.lockstep_begin (h : s.Alike t) (source sink : g.Node) :
    Lockstep Alike Twins (begin source sink s) (begin source sink t) := by
  have hcleared : s.cleared.Alike t.cleared :=
    ⟨(congrArg (fun r : Fifo g => r.cleared) h.bare_eq :), h.left, h.right⟩
  unfold begin
  refine Lockstep.bind (.modify hcleared) fun _ p q hpq => ?_
  refine Lockstep.bind (hpq.lockstep_relabel source sink) fun _ p q hpq => .modify ?_
  have hlength : p.queue.length = q.queue.length :=
    (congrArg (fun r : Fifo g => r.queue.length) hpq.bare_eq :)
  rw [hlength]
  exact hpq.record _

theorem Alike.discharges_eq (h : s.Alike t) (threshold fuel : Nat) (source sink : g.Node) :
    discharges threshold fuel source sink s = discharges threshold fuel source sink t := by
  have hbegin := h.lockstep_begin source sink
  unfold discharges
  generalize begin source sink s = p at hbegin ⊢
  generalize begin source sink t = q at hbegin ⊢
  cases hbegin with
  | ok _ hpq => exact hpq.dischargesFrom_eq threshold fuel
  | error _ _ => rfl

theorem Alike.lockstep_run (h : s.Alike t) (threshold fuel : Nat) (source sink : g.Node) :
    Lockstep Alike Alike (run threshold fuel source sink s) (run threshold fuel source sink t) := by
  rw [run_eq_begin_bind]
  refine Lockstep.bind (h.lockstep_begin source sink) fun _ p q hpq => ?_
  exact (Lockstep.iterate fuel (fun p q hpq => hpq.lockstep_step threshold source sink)
    (fun p q hpq => hpq.alike) hpq).mono fun p q hpq => hpq.alike

end Fifo

end PushRelabel
