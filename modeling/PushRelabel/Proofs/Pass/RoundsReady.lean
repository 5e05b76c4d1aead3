import PushRelabel.Proofs.Pass.Rounds
import PushRelabel.Proofs.Ready

/-! # Rounds do not halt early

The nodes of the working set are distinct, so there is a slot for each of them, and a round
records no event that raises the stop flag. So a step halts early only if a position leaves
the words.
-/

namespace PushRelabel

open WorkingSet (Overflows)

variable {K : Type} [Quantity K] {g : FlowGraph K} {batch : Nat} {source sink : g.Node}
  {excused : Halt → Prop}

namespace Round

variable {r : Round g}

theorem ready_discharge (h : r.toPass.Ready excused batch) (sink v : g.Node) :
    (r.discharge sink v).toPass.Ready excused batch :=
  h.congr (untouched_discharge sink v r).journal_eq (untouched_discharge sink v r).search_eq

theorem ready_commit (h : r.toPass.Ready excused batch) (v : g.Node) :
    (r.commit v).toPass.Ready excused batch := by
  have hset : ∀ label, (r.setLabel v label).toPass.Ready excused batch := by
    intro label
    unfold setLabel
    dsimp only
    split <;> exact h.congr rfl rfl
  unfold commit
  dsimp only
  split
  · exact h.congr rfl rfl
  · exact (hset _).congr rfl rfl

omit [Quantity K] in
theorem ready_closeGap (h : r.toPass.Ready excused batch) :
    r.closeGap.toPass.Ready excused batch := by
  unfold closeGap
  dsimp only
  split
  · exact ⟨h.overflow, h.bears.record _, h.batch_eq, h.capacity_eq⟩
  · exact h.congr rfl rfl

theorem ready_settleFound (h : r.toPass.Ready excused batch) :
    r.settleFound.toPass.Ready excused batch := by
  rw [settleFound_eq]
  refine h.congr ?_ ?_
  · exact unchanged_foldl_release _ r (fun r => r.journal) fun _ _ => rfl
  · exact unchanged_foldl_release _ r (fun r => r.search) fun _ _ => rfl

end Round

namespace Rounds

variable {s t : Rounds g} {start : Preflow g} {u : Unit}

/-- The pass can go on in batches of a certain size, and each node has a slot in the working
set. -/
structure Ready (excused : Halt → Prop) (batch : Nat) (s : Rounds g) : Prop where
  pass : s.toPass.Ready excused batch
  batch_eq : s.batch = batch
  capacity_eq : s.workingSet.capacity = g.nodeCount

omit [Quantity K] in
theorem Ready.congr (h : s.Ready excused batch) (hpass : t.toPass.Ready excused batch)
    (halike : s.Alike t) : t.Ready excused batch :=
  ⟨hpass, halike.batch_eq.trans h.batch_eq, halike.capacity_eq.trans h.capacity_eq⟩

omit [Quantity K] in
theorem Ready.record (h : s.Ready excused batch) (e : Event K) :
    Ready excused batch { s with journal := s.journal.record e } :=
  h.congr (h.pass.record e) ⟨rfl, rfl⟩

theorem ready_start (strategy : GapStrategy) (batch : Nat) {p : Pass g}
    (h : p.Ready excused batch) : (Rounds.start strategy batch p).Ready excused batch :=
  ⟨h, rfl, Array.size_replicate⟩

omit [Quantity K] in
theorem haltsOnly_refill {nodes : List g.Node}
    (hroom : nodes.length ≤ s.workingSet.capacity) : HaltsOnly excused (refill nodes) s := by
  unfold refill
  refine HaltsOnly.onPart (haltsOnly_onSet fun e w' herror => ?_)
  exact absurd herror (WorkingSet.pushAll_ne_error hroom)

omit [Quantity K] in
theorem haltsOnly_forEach {visit : g.Node → Round g → Round g} {vs : List g.Node}
    {running : Bool} (hoverflow : ∀ h, Overflows s.workingSet.capacity s.batch h → excused h)
    (hrunning : running = true ∨ excused .interrupted) (hbatch : 1 ≤ s.batch)
    (hlists : s.workingSet.Lists vs) (hroom : vs.length ≤ s.workingSet.capacity) :
    HaltsOnly excused (forEach running visit) s := by
  unfold forEach
  refine haltsOnly_get_bind ?_
  exact HaltsOnly.onPart
    (WorkingSet.haltsOnly_consume hoverflow hrunning (Or.inr hbatch) hlists hroom)

theorem haltsOnly_relabel (h : s.Ready excused batch) (hbatch : 1 ≤ batch) (hne : source ≠ sink) :
    HaltsOnly excused (relabel source sink) s := by
  unfold relabel
  refine HaltsOnly.bind (HaltsOnly.onPart ?_) fun _ r hpart => ?_
  · exact h.pass.haltsOnly_relabel hbatch hne
  obtain ⟨p, -, rfl⟩ := onPart_eq_ok_iff.mp hpart
  refine haltsOnly_modify_bind ?_
  refine haltsOnly_get_bind ?_
  refine HaltsOnly.bind (haltsOnly_refill ?_) fun _ _ _ => haltsOnly_modify _
  change List.length _ ≤ s.workingSet.capacity
  rw [h.capacity_eq]
  exact (List.length_filter_le _ _).trans List.length_finRange.le

theorem ready_relabel (h : s.Ready excused batch) (hne : source ≠ sink)
    (hrelabel : relabel source sink s = .ok u t) : t.Ready excused batch := by
  unfold relabel at hrelabel
  obtain ⟨_, s₁, hpart, hrelabel⟩ := bind_eq_ok_iff.mp hrelabel
  obtain ⟨p, hpass, rfl⟩ := onPart_eq_ok_iff.mp hpart
  rw [modify_bind, get_bind] at hrelabel
  obtain ⟨_, s₃, hrefill, hrelabel⟩ := bind_eq_ok_iff.mp hrelabel
  obtain rfl := modify_eq_ok_iff.mp hrelabel
  obtain ⟨hround, -, -, halike⟩ := refill_eq_ok hrefill
  have hpass : p.Ready excused batch := h.pass.relabel hne hpass
  rcases s₃ with ⟨r, w, size, exact⟩
  obtain rfl := hround
  exact h.congr hpass ⟨halike.batch_eq, halike.capacity_eq⟩

/-- A round discharges distinct nodes, so there is room for them. -/
theorem haltsOnly_discharge (h : s.Ready excused batch) (hbatch : 1 ≤ batch)
    (hkept : s.Kept start source sink) :
    HaltsOnly excused (discharge sink) s := by
  have hroom : s.workingSet.toList.length ≤ s.workingSet.capacity := by
    rw [h.capacity_eq, ← Fintype.card_fin g.nodeCount]
    exact hkept.nodup.length_le_card
  have hvisits : ∀ (t : Rounds g) (running : Bool) (visit : g.Node → Round g → Round g),
      running = true ∨ excused .interrupted → s.Alike t →
      t.workingSet.Lists s.workingSet.toList → HaltsOnly excused (forEach running visit) t := by
    intro t running visit hrunning halike hlists
    have hsize := halike.batch_eq.trans h.batch_eq
    have hcapacity := halike.capacity_eq.trans h.capacity_eq
    have hoverflow := h.pass.overflow
    rw [← hsize, ← hcapacity] at hoverflow
    exact haltsOnly_forEach hoverflow hrunning (hsize ▸ hbatch) hlists (halike.capacity_eq ▸ hroom)
  unfold discharge
  refine haltsOnly_modify_bind ?_
  refine haltsOnly_get_bind ?_
  refine HaltsOnly.bind ?_ fun _ r hdischarge => ?_
  · exact hvisits _ _ _ h.pass.bears.running ⟨rfl, rfl⟩ hkept.lists
  · obtain ⟨-, -, hlist, hsize, halike⟩ := forEach_eq_ok (by exact hkept.lists.cursor_eq) hdischarge
    refine haltsOnly_modify_bind ?_
    exact hvisits _ _ _ (Or.inl rfl) ⟨halike.batch_eq, halike.capacity_eq⟩
      ⟨hlist, hsize.trans hkept.lists.size_eq, rfl⟩

theorem ready_discharge (h : s.Ready excused batch) (hkept : s.Kept start source sink)
    (hdischarge : discharge sink s = .ok u t) : t.Ready excused batch := by
  obtain ⟨hround, -, halike⟩ := discharge_eq_ok hkept.lists.cursor_eq hdischarge
  refine h.congr ?_ halike
  rw [hround]
  let invariant (r : Round g) : Prop := r.toPass.Ready excused batch
  have hopening : invariant s.opening := h.pass.congr rfl rfl
  refine List.foldlRecOn (motive := invariant) _ _ ?_ fun r hr v _ => Round.ready_commit hr v
  exact List.foldlRecOn (motive := invariant) _ _ hopening
    fun r hr v _ => Round.ready_discharge hr sink v

theorem haltsOnly_renew (hcapacity : s.workingSet.capacity = g.nodeCount)
    (hkept : s.toRound.Kept start source sink []) : HaltsOnly excused (renew sink) s := by
  unfold renew
  refine haltsOnly_modify_bind ?_
  refine haltsOnly_get_bind ?_
  refine HaltsOnly.bind (haltsOnly_refill ?_) fun _ _ _ => haltsOnly_modify _
  change s.closeGap.settleFound.survivors.length ≤ s.workingSet.capacity
  rw [hcapacity, ← Fintype.card_fin g.nodeCount]
  exact hkept.closeGap.survivors.1.length_le_card

theorem ready_renew (h : s.Ready excused batch) (hrenew : renew sink s = .ok u t) :
    t.Ready excused batch := by
  obtain ⟨hround, -, -, halike⟩ := renew_eq_ok hrenew
  refine h.congr ?_ halike
  rw [hround]
  exact (Round.ready_settleFound (Round.ready_closeGap h.pass)).congr rfl rfl

/-- A step halts early only where a position leaves the words. -/
theorem haltsOnly_step (h : s.Ready excused batch) (hbatch : 1 ≤ batch) (hne : source ≠ sink)
    (hkept : s.Kept start source sink) (threshold : Nat) :
    HaltsOnly excused (step threshold source sink) s := by
  unfold step
  refine haltsOnly_get_bind ?_
  split
  next =>
    refine haltsOnly_get_bind ?_
    split
    next => exact haltsOnly_pure _
    next =>
      refine (haltsOnly_relabel h hbatch hne).bind fun _ r _ => ?_
      refine haltsOnly_get_bind ?_
      dsimp only
      split
      next => exact (haltsOnly_modify _).bind fun _ _ _ => haltsOnly_pure _
      next => exact haltsOnly_pure _
  next =>
    refine (haltsOnly_discharge h hbatch hkept).bind fun _ p hdischarge => ?_
    have hp := ready_discharge h hkept hdischarge
    refine (haltsOnly_renew hp.capacity_eq (hkept.discharge hdischarge)).bind fun _ q hrenew => ?_
    have hq := ready_renew hp hrenew
    refine haltsOnly_get_bind ?_
    refine haltsOnly_get_bind ?_
    dsimp only
    split
    next => exact (haltsOnly_relabel hq hbatch hne).bind fun _ _ _ => haltsOnly_pure _
    next => exact haltsOnly_pure _

theorem ready_step (h : s.Ready excused batch) (hne : source ≠ sink)
    (hkept : s.Kept start source sink) {threshold : Nat} {again : Bool}
    (hstep : step threshold source sink s = .ok again t) : t.Ready excused batch := by
  rcases step_eq_ok hstep with ⟨-, rfl, -⟩ |
    ⟨-, ⟨-, -, q, journal, hrelabel, hjournal, rfl⟩ | ⟨-, hround⟩⟩
  · exact h
  · have hq := ready_relabel h hne hrelabel
    rcases hjournal with rfl | ⟨e, rfl⟩
    · exact hq
    · exact hq.record e
  · obtain ⟨p, q, hdischarge, hrenew, rfl | ⟨-, hrelabel⟩⟩ := hround
    · exact ready_renew (ready_discharge h hkept hdischarge) hrenew
    · exact ready_relabel (ready_renew (ready_discharge h hkept hdischarge) hrenew) hne hrelabel

omit [Quantity K] in
theorem ready_prepare (h : s.Ready excused batch) :
    Ready excused batch { s with toRound := s.prepare } :=
  h.congr (h.pass.congr rfl rfl) ⟨rfl, rfl⟩

theorem ready_of_run (h : s.Ready excused batch) (hne : source ≠ sink)
    (hadded : ∀ v : g.Node, s.added[v] = 0) {threshold fuel : Nat}
    (hrun : run threshold fuel source sink s = .ok u t) : t.Ready excused batch := by
  obtain ⟨r, e, hrelabel, hloop⟩ := run_eq_relabel hrun
  have hr := (ready_relabel (ready_prepare h) hne hrelabel).record e
  obtain ⟨q, ⟨hbetween, hq⟩, hlast⟩ := iterate_invariant
    (fun q : Rounds g => Between source sink s q ∧ q.Ready excused batch)
    (fun q t hq hstep => ⟨hq.1.step hstep, ready_step hq.2 hne (hq.1.kept hne hadded) hstep⟩)
    ⟨.started _ hrelabel, hr⟩ hloop
  exact ready_step hq hne (hbetween.kept hne hadded) hlast

/-- Whatever its fuel, a run halts early only with an excuse, if want of fuel is one. -/
theorem haltsOnly_run (h : s.Ready excused batch) (hbatch : 1 ≤ batch) (hne : source ≠ sink)
    (hadded : ∀ v : g.Node, s.added[v] = 0) (hfuel : excused .outOfFuel) (threshold fuel : Nat) :
    HaltsOnly excused (run threshold fuel source sink) s := by
  have hprepared := ready_prepare h
  unfold run
  refine haltsOnly_modify_bind ?_
  refine (haltsOnly_relabel hprepared hbatch hne).bind fun _ r hrelabel => ?_
  have hready := ready_relabel hprepared hne hrelabel
  refine haltsOnly_modify_bind ?_
  exact haltsOnly_iterate (fun q : Rounds g => Between source sink s q ∧ q.Ready excused batch)
    (fun q t hq hstep => ⟨hq.1.step hstep, ready_step hq.2 hne (hq.1.kept hne hadded) hstep⟩)
    (fun q hq => haltsOnly_step hq.2 hbatch hne (hq.1.kept hne hadded) threshold) hfuel
    ⟨.started _ hrelabel, hready.record _⟩ fuel

/-- A pass ends if it cannot go on forever from any state between two rounds. -/
theorem ends_run_of_acc (h : s.Ready excused batch) (hbatch : 1 ≤ batch) (hne : source ≠ sink)
    (hadded : ∀ v : g.Node, s.added[v] = 0) {threshold : Nat}
    (hacc : ∀ q, Between source sink s q →
      Acc (fun t q => step threshold source sink q = .ok true t) q) :
    Ends excused (fun fuel => run threshold fuel source sink) s := by
  have hprepared := ready_prepare h
  unfold run
  refine ends_modify_bind ?_
  refine (haltsOnly_relabel hprepared hbatch hne).ends.bind fun _ _ r hrelabel => ?_
  refine ends_modify_bind ?_
  have hstarted := Between.started
    (r.journal.record (.dischargeStarted .parallel r.workingSet.size sink)) hrelabel
  have hr := (ready_relabel hprepared hne hrelabel).record
    (.dischargeStarted .parallel r.workingSet.size sink)
  exact ends_iterate (fun q => Between source sink s q ∧ q.Ready excused batch)
    (fun q t hq hstep => ⟨hq.1.step hstep, ready_step hq.2 hne (hq.1.kept hne hadded) hstep⟩)
    (fun q hq => haltsOnly_step hq.2 hbatch hne (hq.1.kept hne hadded) threshold)
    ⟨hstarted, hr⟩ (hacc _ hstarted)

end Rounds

end PushRelabel
