import PushRelabel.Proofs.Pass.Descent

/-! # First-in, first-out passes end

A pass can recompute its labels whenever it wants to, and its steps cannot go on forever.
So it ends, and it ends well unless a position leaves the words.
-/

namespace PushRelabel.Fifo

section Ready

variable {K : Type} {g : FlowGraph K} {s t : Fifo g} {batch : Nat} {source sink v : g.Node}
  {excused : Halt → Prop}

theorem ready_setLabel (h : s.toPass.Ready excused batch) (v : g.Node) (label : Nat) :
    (s.setLabel v label).1.toPass.Ready excused batch := by
  unfold setLabel
  dsimp only
  split
  · exact ⟨h.overflow, h.bears.record _, h.batch_eq, h.capacity_eq⟩
  · exact h.congr rfl rfl

theorem ready_raiseLabel (h : s.toPass.Ready excused batch) (v : g.Node) (label : Nat) :
    (s.raiseLabel v label).1.toPass.Ready excused batch := by
  unfold raiseLabel
  split
  · exact ready_setLabel h v label
  · exact h

variable [Quantity K]

theorem ready_send (h : s.toPass.Ready excused batch) (sink v : g.Node) (d : g.DartOf) :
    (s.send sink v d).toPass.Ready excused batch := by
  unfold send
  dsimp only
  split
  · exact h.congr rfl rfl
  · rw [toPass_enqueue]
    exact h.congr rfl rfl

theorem ready_scan (h : s.toPass.Ready excused batch) (sink v : g.Node)
    (cs : List (Nat × g.DartOf)) : (scan sink v cs s).1.toPass.Ready excused batch := by
  induction cs generalizing s with
  | nil => exact h
  | cons c cs ih =>
      have hraised := ready_raiseLabel h v (c.1 + 1)
      unfold scan
      dsimp only
      split
      next => exact hraised
      next =>
        split
        next => exact ih hraised
        next =>
          have hsent := ready_send hraised sink v c.2
          split
          next => exact hsent
          next => exact ih hsent

theorem ready_discharge (h : s.toPass.Ready excused batch) (sink v : g.Node) :
    (s.discharge sink v).toPass.Ready excused batch := by
  have hscanned := ready_scan h sink v (s.candidates v)
  unfold discharge
  dsimp only
  split
  · exact ready_setLabel hscanned v g.nodeCount
  · exact hscanned

theorem ready_counted (h : s.toPass.Ready excused batch) (sink v : g.Node) (queue : Queue g.Node) :
    (((s.taken v queue).discharge sink v).counted v).toPass.Ready excused batch :=
  (ready_discharge (s := s.taken v queue) (h.congr rfl rfl) sink v).congr rfl rfl

theorem haltsOnly_relabel (h : s.toPass.Ready excused batch) (hbatch : 1 ≤ batch)
    (hne : source ≠ sink) : HaltsOnly excused (relabel source sink) s := by
  unfold relabel
  exact (HaltsOnly.onPart (h.haltsOnly_relabel hbatch hne)).bind fun _ _ _ => haltsOnly_modify _

theorem ready_relabel (h : s.toPass.Ready excused batch) (hne : source ≠ sink) {u : Unit}
    (hrelabel : relabel source sink s = .ok u t) : t.toPass.Ready excused batch := by
  unfold relabel at hrelabel
  obtain ⟨_, s₁, hpart, hrelabel⟩ := bind_eq_ok_iff.mp hrelabel
  obtain rfl := modify_eq_ok_iff.mp hrelabel
  obtain ⟨p, hpass, rfl⟩ := onPart_eq_ok_iff.mp hpart
  rw [toPass_foldl_enqueue]
  exact h.relabel hne hpass

theorem ready_step (h : s.toPass.Ready excused batch) (hne : source ≠ sink) {threshold : Nat}
    {again : Bool} (hstep : step threshold source sink s = .ok again t) :
    t.toPass.Ready excused batch := by
  rcases step_eq_ok hstep with ⟨-, rfl, -⟩ | ⟨-, v, queue, -, ⟨-, rfl⟩ | ⟨-, hcase⟩⟩
  · exact h
  · exact h.congr rfl rfl
  · have hdischarged := ready_counted h sink v queue
    rcases hcase with rfl | ⟨-, hrelabel⟩
    · exact hdischarged
    · exact ready_relabel hdischarged hne hrelabel

/-- A step halts early only where labels are recomputed. -/
theorem haltsOnly_step (h : s.toPass.Ready excused batch) (hbatch : 1 ≤ batch) (hne : source ≠ sink)
    (threshold : Nat) : HaltsOnly excused (step threshold source sink) s := by
  unfold step
  refine haltsOnly_get_bind ?_
  cases hpop : s.queue.pop? with
  | none => exact haltsOnly_pure _
  | some next =>
      rcases next with ⟨v, queue⟩
      refine haltsOnly_modify_bind ?_
      refine haltsOnly_get_bind ?_
      have htaken : (s.taken v queue).toPass.Ready excused batch := h.congr rfl rfl
      split
      next =>
        refine haltsOnly_get_bind ?_
        refine (haltsOnly_checkRunning htaken.bears.running).bind fun _ r hchecked => ?_
        obtain ⟨-, rfl⟩ := checkRunning_eq_ok_iff.mp hchecked
        refine haltsOnly_modify_bind ?_
        refine haltsOnly_get_bind ?_
        have hdischarged := ready_counted h sink v queue
        split
        next =>
          exact (haltsOnly_relabel hdischarged hbatch hne).bind fun _ _ _ => haltsOnly_pure _
        next => exact haltsOnly_pure _
      next => exact haltsOnly_pure _

theorem ready_of_run (h : s.toPass.Ready excused batch) (hne : source ≠ sink) {threshold fuel : Nat}
    {u : Unit} (hrun : run threshold fuel source sink s = .ok u t) :
    t.toPass.Ready excused batch := by
  unfold run at hrun
  rw [modify_bind] at hrun
  obtain ⟨_, s₂, hrelabel, hrun⟩ := bind_eq_ok_iff.mp hrun
  obtain ⟨_, s₃, hrecord, hrun⟩ := bind_eq_ok_iff.mp hrun
  have hready := ready_relabel (s := s.cleared) (h.congr rfl rfl) hne hrelabel
  have hstart : s₃.toPass.Ready excused batch := by
    obtain rfl := modify_eq_ok_iff.mp hrecord
    exact hready.record _
  obtain ⟨q, hq, hlast⟩ := iterate_invariant (fun q : Fifo g => q.toPass.Ready excused batch)
    (fun _ _ hq hstep => ready_step hq hne hstep) hstart hrun
  exact ready_step hq hne hlast

/-- Whatever its fuel, a run halts early only with an excuse, if want of fuel is one. -/
theorem haltsOnly_run (h : s.toPass.Ready excused batch) (hbatch : 1 ≤ batch) (hne : source ≠ sink)
    (hfuel : excused .outOfFuel) (threshold fuel : Nat) :
    HaltsOnly excused (run threshold fuel source sink) s := by
  have hcleared : s.cleared.toPass.Ready excused batch := h.congr rfl rfl
  unfold run
  refine haltsOnly_modify_bind ?_
  refine (haltsOnly_relabel hcleared hbatch hne).bind fun _ r hrelabel => ?_
  have hready := ready_relabel hcleared hne hrelabel
  refine haltsOnly_modify_bind ?_
  exact haltsOnly_iterate (fun q : Fifo g => q.toPass.Ready excused batch)
    (fun _ _ hq hstep => ready_step hq hne hstep)
    (fun _ hq => haltsOnly_step hq hbatch hne threshold) hfuel (hready.record _) fuel

end Ready

variable {K : Type} [AddCommGroup K] [LinearOrder K] [IsOrderedAddMonoid K] {g : FlowGraph K}
  {giver source sink : g.Node} {s t : Fifo g} {batch threshold : Nat} {excused : Halt → Prop}

theorem ends_run (hproper : g.Proper) (hne : source ≠ sink)
    (hgiver : giver = source ∨ giver = sink) (hfits : g.Fits s.flow)
    (hexcess : ∀ v : g.Node, v ≠ giver → 0 ≤ s.excess[v]) (h : s.toPass.Ready excused batch)
    (hbatch : 1 ≤ batch) :
    Ends excused (fun fuel => run threshold fuel source sink) s := by
  have hcleared : s.cleared.toPass.Ready excused batch := h.congr rfl rfl
  unfold run
  refine ends_modify_bind ?_
  refine (haltsOnly_relabel hcleared hbatch hne).ends.bind fun _ _ r hrelabel => ?_
  refine ends_modify_bind ?_
  have hready := ready_relabel hcleared hne hrelabel
  set q : Fifo g :=
    { r with journal := r.journal.record (.dischargeStarted .sequential r.queue.length sink) }
  let invariant (q : Fifo g) : Prop :=
    Between threshold source sink s q ∧ q.toPass.Ready excused batch
  have hq : invariant q :=
    ⟨.started _ hrelabel, hready.record _⟩
  have hkeeps : ∀ q r, invariant q → step threshold source sink q = .ok true r → invariant r :=
    fun q r hq hstep => ⟨hq.1.step hstep, ready_step hq.2 hne hstep⟩
  refine ends_iterate invariant hkeeps (fun q hq => haltsOnly_step hq.2 hbatch hne threshold) hq ?_
  exact acc_of_lt invariant (fun q => toLex (q.potential, q.queue.toList.length))
    (fun q r hq hstep =>
      ⟨hkeeps q r hq hstep, hq.1.lowers_step hproper hne hgiver hfits hexcess hstep⟩) hq

end PushRelabel.Fifo
