import PushRelabel.Pass.Rounds
import PushRelabel.Proofs.Outcomes
import PushRelabel.Proofs.Pass
import PushRelabel.Proofs.Pass.Held

/-! # What discharging in rounds achieves

Labels need not be valid between two rounds, and nodes may be retired that can still
reach the sink. But a pass ends only right after the labels were recomputed, when the
working set is the list of all active nodes and is empty.
-/

namespace PushRelabel.Rounds

variable {K : Type} {g : FlowGraph K} {source sink : g.Node} {start : Preflow g} {s t : Rounds g}
  {u : Unit}

/-- Both states hand out nodes in batches of the same size, from as many slots. -/
structure Alike (s t : Rounds g) : Prop where
  batch_eq : t.batch = s.batch
  capacity_eq : t.workingSet.capacity = s.workingSet.capacity

theorem Alike.trans {r : Rounds g} (h : s.Alike t) (hr : t.Alike r) : s.Alike r :=
  ⟨hr.batch_eq.trans h.batch_eq, hr.capacity_eq.trans h.capacity_eq⟩

theorem refill_eq_ok {nodes : List g.Node} (h : refill nodes s = .ok u t) :
    t.toRound = s.toRound ∧ t.exact = s.exact ∧ t.workingSet.Lists nodes ∧ s.Alike t := by
  unfold refill at h
  obtain ⟨⟨w, _⟩, hset, rfl⟩ := onPart_eq_ok_iff.mp h
  obtain ⟨hpush, -⟩ := onSet_eq_ok_iff.mp hset
  obtain ⟨hlists, hcapacity⟩ := WorkingSet.lists_of_pushAll hpush
  exact ⟨rfl, rfl, hlists, rfl, hcapacity⟩

theorem forEach_eq_ok {running : Bool} {visit : g.Node → Round g → Round g}
    (hcursor : s.workingSet.cursor = 0) (h : forEach running visit s = .ok u t) :
    t.toRound = s.workingSet.toList.foldl (fun r v => visit v r) s.toRound ∧
      t.exact = s.exact ∧ t.workingSet.toList = s.workingSet.toList ∧
      t.workingSet.size = s.workingSet.size ∧ s.Alike t := by
  unfold forEach at h
  rw [get_bind] at h
  obtain ⟨⟨w, r⟩, hconsume, rfl⟩ := onPart_eq_ok_iff.mp h
  obtain ⟨hslots, hsize, hr⟩ := WorkingSet.consume_eq_ok hcursor hconsume
  exact ⟨hr, rfl, WorkingSet.toList_congr hslots hsize, hsize, rfl, congrArg Array.size hslots⟩

/-- However a phase ends, it has visited the nodes of the working set up to some node. -/
theorem leaves_forEach (running : Bool) (visit : g.Node → Round g → Round g)
    (hcursor : s.workingSet.cursor = 0) :
    Leaves (fun t => t.workingSet.toList = s.workingSet.toList ∧
      ∃ vs, vs <+: s.workingSet.toList ∧ t.toRound = vs.foldl (fun r v => visit v r) s.toRound)
      (forEach running visit s) := by
  unfold forEach
  refine Leaves.get (Leaves.onPart WorkingSet.leaves_consume fun r hr => ?_)
  obtain ⟨hkeeps, vs, hvs, hround⟩ := hr
  rw [hcursor, List.drop_zero] at hvs
  exact ⟨hkeeps.toList_eq, vs, hvs, hround⟩

variable [Quantity K]

/-- Recomputing the labels makes the active nodes the working set. -/
theorem relabel_eq_ok (hne : source ≠ sink) (h : relabel source sink s = .ok u t) :
    (t.flow = s.flow ∧ t.excess = s.excess ∧ g.ExactLabels t.flow t.labels source sink) ∧
      (t.added = s.added ∧ t.discovered = s.discovered ∧ t.found = s.found ∧
        t.emptied = s.emptied) ∧
      t.workingSet.Lists (t.active source sink) ∧ t.exact = true ∧ s.Alike t := by
  unfold relabel at h
  obtain ⟨_, s₁, hpart, h⟩ := bind_eq_ok_iff.mp h
  obtain ⟨p, hpass, rfl⟩ := onPart_eq_ok_iff.mp hpart
  rw [modify_bind, get_bind] at h
  obtain ⟨_, s₃, hrefill, h⟩ := bind_eq_ok_iff.mp h
  obtain rfl := modify_eq_ok_iff.mp h
  obtain ⟨hround, -, hlists, hbatch, hcapacity⟩ := refill_eq_ok hrefill
  have hresult := Pass.relabel_eq_ok hne hpass
  rcases s₃ with ⟨r, w, batch, exact⟩
  obtain rfl := hround
  exact ⟨hresult, ⟨rfl, rfl, rfl, rfl⟩, hlists, rfl, hbatch, hcapacity⟩

/-- The round in which the nodes of the working set are about to be discharged. -/
def opening (s : Rounds g) : Round g :=
  { s.toRound with
    tally := { s.tally with discharges := s.tally.discharges + s.workingSet.size } }

/-- The round after all nodes of the working set have taken their turns. -/
def swept (sink : g.Node) (s : Rounds g) : Round g :=
  Round.sweep sink s.workingSet.toList s.opening

theorem untouched_swept (sink : g.Node) (s : Rounds g) : s.opening.Untouched (s.swept sink) :=
  Round.untouched_foldl_discharge sink s.workingSet.toList s.opening

theorem labels_swept (sink : g.Node) (s : Rounds g) : (s.swept sink).labels = s.labels :=
  (untouched_swept sink s).labels_eq

theorem emptied_swept (sink : g.Node) (s : Rounds g) : (s.swept sink).emptied = s.emptied :=
  (untouched_swept sink s).emptied_eq

theorem discharge_eq_ok (hcursor : s.workingSet.cursor = 0) (h : discharge sink s = .ok u t) :
    t.toRound = s.workingSet.toList.foldl (fun r v => r.commit v) (s.swept sink) ∧
      t.exact = false ∧ s.Alike t := by
  unfold discharge at h
  rw [modify_bind, get_bind] at h
  obtain ⟨_, s₂, hdischarge, h⟩ := bind_eq_ok_iff.mp h
  rw [modify_bind] at h
  obtain ⟨hround, hexact, hlist, -, hbatch, hcapacity⟩ :=
    forEach_eq_ok (by exact hcursor) hdischarge
  obtain ⟨hcommit, hexact', -, -, hbatch', hcapacity'⟩ := forEach_eq_ok (by rfl) h
  rw [WorkingSet.toList_rewind, hlist, hround] at hcommit
  exact ⟨hcommit, hexact'.trans hexact, hbatch'.trans hbatch, hcapacity'.trans hcapacity⟩

theorem renew_eq_ok (h : renew sink s = .ok u t) :
    t.toRound = s.closeGap.settleFound.close sink ∧ t.exact = s.exact ∧
      t.workingSet.Lists s.closeGap.settleFound.survivors ∧ s.Alike t := by
  unfold renew at h
  rw [modify_bind, get_bind] at h
  obtain ⟨_, s₂, hrefill, h⟩ := bind_eq_ok_iff.mp h
  obtain rfl := modify_eq_ok_iff.mp h
  obtain ⟨hround, hexact, hlists, hbatch, hcapacity⟩ := refill_eq_ok hrefill
  exact ⟨by rw [hround], hexact, hlists, hbatch, hcapacity⟩

/-- A round consists of the turns of the nodes in the working set and of what follows them. -/
theorem round_eq_ok (hcursor : s.workingSet.cursor = 0) {p : Rounds g} {w : Unit}
    (hdischarge : discharge sink s = .ok u p) (hrenew : renew sink p = .ok w t) :
    t.toRound = (s.swept sink).ending sink s.workingSet.toList ∧
      t.workingSet.Lists p.closeGap.settleFound.survivors ∧
      p.toRound = s.workingSet.toList.foldl (fun r v => r.commit v) (s.swept sink) := by
  obtain ⟨hround, -⟩ := discharge_eq_ok hcursor hdischarge
  obtain ⟨hclosed, -, hlists, -⟩ := renew_eq_ok hrenew
  refine ⟨?_, hlists, hround⟩
  rw [hclosed, hround]
  rfl

/-! ## Steps -/

/-- A step ends the pass if the working set is empty and nothing has happened since the
labels were recomputed. Otherwise it recomputes them, or runs a round after which it may
do so. -/
theorem step_eq_ok {threshold : Nat} {again : Bool}
    (h : step threshold source sink s = .ok again t) :
    (again = false ∧ t = s ∧ s.workingSet.isEmpty = true ∧ s.exact = true) ∨
      again = true ∧
        ((s.workingSet.isEmpty = true ∧ s.exact = false ∧ ∃ q journal,
            relabel source sink s = .ok () q ∧
              (journal = q.journal ∨ ∃ e, journal = q.journal.record e) ∧
              t = { q with journal := journal }) ∨
          (s.workingSet.isEmpty = false ∧ ∃ p q, discharge sink s = .ok () p ∧
            renew sink p = .ok () q ∧
              (t = q ∨ q.workingSet.isEmpty = false ∧ relabel source sink q = .ok () t))) := by
  unfold step at h
  rw [get_bind] at h
  split at h
  next hempty =>
    rw [get_bind] at h
    split at h
    next hexact =>
      obtain ⟨rfl, rfl⟩ := pure_eq_ok_iff.mp h
      exact Or.inl ⟨rfl, rfl, hempty, hexact⟩
    next hinexact =>
      have hfalse := Bool.eq_false_iff.mpr hinexact
      obtain ⟨_, q, hrelabel, h⟩ := bind_eq_ok_iff.mp h
      rw [get_bind] at h
      dsimp only at h
      split at h
      next =>
        rw [modify_bind] at h
        obtain ⟨rfl, rfl⟩ := pure_eq_ok_iff.mp h
        exact Or.inr ⟨rfl, Or.inl ⟨hempty, hfalse, q, _, hrelabel, Or.inr ⟨_, rfl⟩, rfl⟩⟩
      next =>
        obtain ⟨rfl, rfl⟩ := pure_eq_ok_iff.mp h
        exact Or.inr ⟨rfl, Or.inl ⟨hempty, hfalse, q, _, hrelabel, Or.inl rfl, rfl⟩⟩
  next hfull =>
    have hfalse := Bool.eq_false_iff.mpr hfull
    obtain ⟨_, p, hdischarge, h⟩ := bind_eq_ok_iff.mp h
    obtain ⟨_, q, hrenew, h⟩ := bind_eq_ok_iff.mp h
    rw [get_bind, get_bind] at h
    dsimp only at h
    split at h
    next hagain =>
      obtain ⟨_, r, hrelabel, h⟩ := bind_eq_ok_iff.mp h
      obtain ⟨rfl, rfl⟩ := pure_eq_ok_iff.mp h
      exact Or.inr ⟨rfl, Or.inr ⟨hfalse, p, q, hdischarge, hrenew, Or.inr ⟨hagain.2, hrelabel⟩⟩⟩
    next =>
      obtain ⟨rfl, rfl⟩ := pure_eq_ok_iff.mp h
      exact Or.inr ⟨rfl, Or.inr ⟨hfalse, p, q, hdischarge, hrenew, Or.inl rfl⟩⟩

/-- What holds between two rounds. -/
structure Kept (start : Preflow g) (source sink : g.Node) (s : Rounds g) : Prop where
  idle : s.Idle start source
  lists : s.workingSet.Lists s.workingSet.toList
  nodup : s.workingSet.toList.Nodup
  inner : ∀ v ∈ s.workingSet.toList, v ≠ source ∧ v ≠ sink
  validLabels : s.exact = true → g.ValidLabels s.flow s.labels source sink
  waiting : s.exact = true → ∀ v : g.Node, v ≠ source → v ≠ sink → s.IsActive v →
    v ∈ s.workingSet.toList

theorem kept_of_relabel (hne : source ≠ sink)
    (hleaves : start.LeavesAlone source s.toPreflow) (hadded : ∀ v : g.Node, s.added[v] = 0)
    (hdiscovered : ∀ v : g.Node, s.discovered[v] = false) (hfound : s.found = #[])
    (h : relabel source sink s = .ok u t) : t.Kept start source sink := by
  obtain ⟨⟨hflow, hexcess, hexact⟩, ⟨hadded', hdiscovered', hfound', -⟩, hlists, -⟩ :=
    relabel_eq_ok hne h
  have hlist := hlists.toList_eq
  refine ⟨⟨⟨fun i hi => ?_, ?_⟩, hexact.source_eq, fun v => ?_, fun v => ?_, ?_⟩, hlist ▸ hlists,
    ?_, fun v hv => ?_, fun _ => hexact.toValidLabels, fun _ v hsource hsink hactive => ?_⟩
  · rw [hflow]
    exact hleaves.flow_eq i hi
  · rw [hexcess]
    exact hleaves.excess_eq
  · rw [hadded']
    exact hadded v
  · rw [hdiscovered']
    exact hdiscovered v
  · rw [hfound']
    exact hfound
  · rw [hlist]
    exact (List.nodup_finRange _).filter _
  · rw [hlist] at hv
    obtain ⟨hsource, hsink, -⟩ := Preflow.mem_active.mp hv
    exact ⟨hsource, hsink⟩
  · rw [hlist]
    exact Preflow.mem_active.mpr ⟨hsource, hsink, hactive⟩

namespace Kept

theorem relabel (h : s.Kept start source sink) (hne : source ≠ sink)
    (hrelabel : Rounds.relabel source sink s = .ok u t) : t.Kept start source sink :=
  kept_of_relabel hne h.idle.leavesAlone h.idle.added_eq h.idle.discovered_eq h.idle.found_eq
    hrelabel

theorem record (h : s.Kept start source sink) (journal : Journal K) :
    { s with journal := journal }.Kept start source sink :=
  ⟨h.idle.congr rfl rfl rfl rfl, h.lists, h.nodup, h.inner, h.validLabels, h.waiting⟩

theorem opening (h : s.Kept start source sink) (pending : List g.Node) :
    s.opening.Kept start source sink pending := by
  have hidle : s.opening.Idle start source := h.idle.congr rfl rfl rfl rfl
  exact hidle.kept sink pending

theorem swept (h : s.Kept start source sink) :
    (s.swept sink).Kept start source sink s.workingSet.toList :=
  (h.opening s.workingSet.toList).foldl_discharge fun v hv => ⟨hv, h.inner v hv⟩

/-- What discharging and committing the working set leaves to be settled. -/
theorem discharge (h : s.Kept start source sink)
    (hdischarge : Rounds.discharge sink s = .ok u t) : t.toRound.Kept start source sink [] := by
  obtain ⟨hround, -⟩ := discharge_eq_ok h.lists.cursor_eq hdischarge
  have hswept : (s.swept sink).Kept start source sink (s.workingSet.toList ++ []) := by
    rw [List.append_nil]
    exact h.swept
  rw [hround]
  exact hswept.foldl_commit fun v hv => (h.inner v hv).1

theorem round (h : s.Kept start source sink) (hne : source ≠ sink) {p : Rounds g}
    (hdischarge : Rounds.discharge sink s = .ok u p) (hrenew : renew sink p = .ok u t) :
    t.Kept start source sink := by
  have hclosed := (h.discharge hdischarge).closeGap
  obtain ⟨hround, hexact, hlists, -⟩ := renew_eq_ok hrenew
  have hlist := hlists.toList_eq
  obtain ⟨-, hinexact, -⟩ := discharge_eq_ok h.lists.cursor_eq hdischarge
  obtain ⟨hnodup, hinner⟩ := hclosed.survivors
  -- a round says nothing about labels, and need not: it marks them as inexact
  have hfalse : t.exact ≠ true := by
    rw [hexact, hinexact]
    exact Bool.false_ne_true
  refine ⟨?_, hlist ▸ hlists, hlist ▸ hnodup, hlist ▸ hinner, fun htrue => absurd htrue hfalse,
    fun htrue => absurd htrue hfalse⟩
  rw [hround]
  exact hclosed.idle_close hne.symm

theorem reorder (h : s.Kept start source sink) {w : WorkingSet g.Node} {vs : List g.Node}
    (hw : w.Lists vs) (hperm : vs.Perm s.workingSet.toList) :
    { s with workingSet := w }.Kept start source sink := by
  have hmem : ∀ v, v ∈ w.toList ↔ v ∈ s.workingSet.toList := fun v => by
    rw [hw.toList_eq, hperm.mem_iff]
  refine ⟨h.idle, hw.toList_eq.symm ▸ hw, ?_, fun v hv => h.inner v ((hmem v).mp hv),
    h.validLabels, fun hexact v hsource hsink hactive =>
      (hmem v).mpr (h.waiting hexact v hsource hsink hactive)⟩
  rw [hw.toList_eq]
  exact hperm.nodup_iff.mpr h.nodup

end Kept

/-! ## Between two rounds -/

/-- The states between two rounds of a pass that starts from a given state: after the labels
were recomputed, and after a round. The nodes of the working set may be in any order. -/
inductive Between (source sink : g.Node) (s : Rounds g) : Rounds g → Prop
  | started {t : Rounds g} (journal : Journal K)
      (hrelabel : relabel source sink { s with toRound := s.prepare } = .ok () t) :
      Between source sink s { t with journal := journal }
  | discharged {t p q : Rounds g} (ht : Between source sink s t)
      (hdischarge : discharge sink t = .ok () p) (hrenew : renew sink p = .ok () q) :
      Between source sink s q
  | relabelled {t q : Rounds g} (journal : Journal K) (ht : Between source sink s t)
      (hrelabel : relabel source sink t = .ok () q) :
      Between source sink s { q with journal := journal }
  | reordered {t : Rounds g} {w : WorkingSet g.Node} {vs : List g.Node}
      (ht : Between source sink s t) (hw : w.Lists vs) (hperm : vs.Perm t.workingSet.toList) :
      Between source sink s { t with workingSet := w }

namespace Between

/-- A step leads from a state between two rounds to another one. -/
theorem step {r : Rounds g} (h : Between source sink s t) {threshold : Nat} {again : Bool}
    (hstep : Rounds.step threshold source sink t = .ok again r) : Between source sink s r := by
  rcases step_eq_ok hstep with ⟨-, rfl, -⟩ | ⟨-, ⟨-, -, q, journal, hrelabel, -, rfl⟩ | ⟨-, hround⟩⟩
  · exact h
  · exact h.relabelled journal hrelabel
  · obtain ⟨p, q, hdischarge, hrenew, rfl | ⟨-, hrelabel⟩⟩ := hround
    · exact h.discharged hdischarge hrenew
    · exact (h.discharged hdischarge hrenew).relabelled r.journal hrelabel

theorem kept (h : Between source sink s t) (hne : source ≠ sink)
    (hadded : ∀ v : g.Node, s.added[v] = 0) : t.Kept s.toPreflow source sink := by
  induction h with
  | started journal hrelabel =>
      refine (kept_of_relabel hne ?_ ?_ (fun v => ?_) ?_ hrelabel).record journal
      · exact Preflow.leavesAlone_refl _ source
      · exact hadded
      · simp [Round.prepare]
      · rfl
  | discharged _ hdischarge hrenew ih => exact ih.round hne hdischarge hrenew
  | relabelled journal _ hrelabel ih => exact (ih.relabel hne hrelabel).record journal
  | reordered _ hw hperm ih => exact ih.reorder hw hperm

end Between

/-- A run starts by recomputing the labels, and goes on between two rounds. -/
theorem run_eq_relabel {threshold fuel : Nat} (h : run threshold fuel source sink s = .ok u t) :
    ∃ r e, relabel source sink { s with toRound := s.prepare } = .ok () r ∧
      iterate (step threshold source sink) fuel { r with journal := r.journal.record e } =
        .ok u t := by
  unfold run at h
  rw [modify_bind] at h
  obtain ⟨_, s₂, hrelabel, h⟩ := bind_eq_ok_iff.mp h
  rw [modify_bind] at h
  exact ⟨s₂, _, hrelabel, h⟩

/-- When a run ends, no node is active, and the labels were recomputed last. -/
theorem between_of_run {threshold fuel : Nat} (h : run threshold fuel source sink s = .ok u t) :
    Between source sink s t ∧ t.workingSet.isEmpty = true ∧ t.exact = true := by
  obtain ⟨r, e, hrelabel, hloop⟩ := run_eq_relabel h
  obtain ⟨q, hq, hlast⟩ := iterate_invariant (Between source sink s)
    (fun _ _ hq hstep => hq.step hstep) (.started _ hrelabel) hloop
  rcases step_eq_ok hlast with ⟨-, rfl, hempty, hexact⟩ | ⟨htrue, -⟩
  · exact ⟨hq, hempty, hexact⟩
  · exact absurd htrue Bool.false_ne_true

section Exact

variable {K : Type} [AddCommGroup K] [LinearOrder K] [IsOrderedAddMonoid K] {g : FlowGraph K}
  {giver source sink : g.Node} {start : Preflow g} {s t : Rounds g} {u : Unit}

omit [IsOrderedAddMonoid K] in
theorem balanced_relabel (h : start.Balanced giver s.toPreflow) (hne : source ≠ sink)
    (hrelabel : relabel source sink s = .ok u t) : start.Balanced giver t.toPreflow := by
  obtain ⟨⟨hflow, hexcess, -⟩, -⟩ := relabel_eq_ok hne hrelabel
  exact h.congr hflow hexcess

/-- A round moves excess without losing any. -/
theorem balanced_round (hkept : s.Kept start source sink)
    (h : start.Balanced giver s.toPreflow) (hne : source ≠ sink) {p : Rounds g}
    (hdischarge : discharge sink s = .ok u p) {w : Unit} (hrenew : renew sink p = .ok w t) :
    start.Balanced giver t.toPreflow := by
  obtain ⟨ht, -⟩ := round_eq_ok hkept.lists.cursor_eq hdischarge hrenew
  have hstart : Round.Holds start giver s.workingSet.toList s.opening := by
    refine (Round.holds_iff_balanced ?_ _).mpr ?_
    · exact hkept.idle.added_eq
    · exact h
  have hswept : (s.swept sink).Holds start giver [] := hstart.foldl_discharge hkept.nodup sink
  have hclosed := hswept.congr (Round.sameHeld_ending _ s.workingSet.toList sink)
  rw [← ht] at hclosed
  exact (Round.holds_iff_balanced (hkept.round hne hdischarge hrenew).idle.added_eq []).mp hclosed

theorem Between.balanced (h : Between source sink s t) (hne : source ≠ sink)
    (hfits : g.Fits s.flow) (hexcess : ∀ v : g.Node, v ≠ giver → 0 ≤ s.excess[v])
    (hadded : ∀ v : g.Node, s.added[v] = 0) :
    s.toPreflow.Balanced giver t.toPreflow := by
  induction h with
  | started journal hrelabel =>
      have hstart := Preflow.balanced_refl (p := s.toPreflow) hfits hexcess
      have hbalanced := balanced_relabel (s := { s with toRound := s.prepare }) hstart hne hrelabel
      exact hbalanced
  | discharged ht hdischarge hrenew ih =>
      exact balanced_round (ht.kept hne hadded) ih hne hdischarge hrenew
  | relabelled journal _ hrelabel ih =>
      have hbalanced := balanced_relabel ih hne hrelabel
      exact hbalanced
  | reordered _ _ _ ih => exact ih

theorem settled_of_run {threshold fuel : Nat} (hne : source ≠ sink) (hfits : g.Fits s.flow)
    (hexcess : ∀ v : g.Node, v ≠ giver → 0 ≤ s.excess[v]) (hadded : ∀ v : g.Node, s.added[v] = 0)
    (h : run threshold fuel source sink s = .ok u t) :
    s.toPreflow.Settled giver source sink t.toPreflow ∧ ∀ v : g.Node, t.added[v] = 0 := by
  obtain ⟨hbetween, hempty, hexact⟩ := between_of_run h
  have hkept := hbetween.kept hne hadded
  have hbalanced := hbetween.balanced hne hfits hexcess hadded
  -- the pass ended while labels were exact, so none of the rounds before matters
  have hvalid := hkept.validLabels hexact
  refine ⟨⟨hbalanced, hkept.idle.leavesAlone, hvalid, fun v hsource hsink hpos => ?_⟩,
    hkept.idle.added_eq⟩
  by_contra hlabel
  have hactive : t.IsActive v := ⟨hpos, lt_of_le_of_ne (hvalid.le_nodeCount v) hlabel⟩
  have hmem := hkept.waiting hexact v hsource hsink hactive
  rw [hkept.lists.isEmpty_iff.mp hempty] at hmem
  exact List.not_mem_nil hmem

end Exact

end PushRelabel.Rounds
