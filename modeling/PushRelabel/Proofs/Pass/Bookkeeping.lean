import PushRelabel.Proofs.Bystander
import PushRelabel.Proofs.Double
import PushRelabel.Proofs.FlowGraph.Meaning
import PushRelabel.Proofs.Pass.Closing
import PushRelabel.Proofs.Pass.Remainder

/-! # Rounds keep the books

A round settles all that it has added, clears all marks and fills the working set with exactly
the active nodes, and the counters of labels stay right. So no active node is lost between two
rounds, and the working set has room for all that are found. Rounding does not matter, as long as
excess stays finite: a node that has sent all of its excess is left with zero, and not with an
error.
-/

namespace PushRelabel

open Quantity (isFinite Rounded)

variable {K : Type} [Quantity K] {g : FlowGraph K} {source sink : g.Node}

namespace Round

variable {u v : g.Node} {vs : List g.Node} {r q : Round g}

/-- Where gaps are detected, the counters hold the number of nodes with each label. -/
def Counted (r : Round g) : Prop := ∀ c, r.counts = some c → c.Tracks r.labels

omit [Quantity K] in
theorem Counted.congr (h : r.Counted) (hcounts : q.counts = r.counts)
    (hlabels : q.labels = r.labels) : q.Counted := by
  unfold Counted
  rw [hcounts, hlabels]
  exact h

theorem Counted.commit (h : r.Counted) (v : g.Node) : (r.commit v).Counted := by
  have hset : ∀ label, (r.setLabel v label).Counted := by
    intro label c hc
    unfold setLabel at hc ⊢
    cases hcounts : r.counts with
    | none => simp [hcounts] at hc
    | some counts =>
        simp only [hcounts, Option.some.injEq] at hc ⊢
        rw [← hc]
        exact (h counts hcounts).move v label
  unfold Round.commit
  dsimp only
  split
  · exact h.congr rfl rfl
  · exact (hset _).congr rfl rfl

omit [Quantity K] in
theorem Counted.closeGap (h : r.Counted) : r.closeGap.Counted := by
  unfold Round.closeGap
  dsimp only
  split
  next counts gap hcounts _ =>
    intro c hc
    obtain rfl := Option.some.inj hc
    refine (h counts hcounts).clearAbove fun v => ?_
    unfold retireAbove
    dsimp only
    rw [getElem_foldl_setIfInBounds]
    simp only [Gap.Counts.mem_nodesAbove_iff]
  next => exact h

theorem Counted.foldl_commit (h : r.Counted) (vs : List g.Node) :
    (vs.foldl (fun r v => r.commit v) r).Counted :=
  List.foldlRecOn (motive := Counted) vs _ h fun _ hr v _ => hr.commit v

theorem Counted.close (h : r.Counted) (sink : g.Node) : (r.settleFound.close sink).Counted := by
  refine h.congr ?_ r.labels_settleFound
  change r.settleFound.counts = r.counts
  rw [settleFound_eq]
  exact unchanged_foldl_release _ _ (fun r => r.counts) fun _ _ => rfl

theorem Counted.ending (h : r.Counted) (vs : List g.Node) (sink : g.Node) :
    (r.ending sink vs).Counted :=
  (h.foldl_commit vs).closeGap.close sink

/-! ## Excess -/

theorem excess_commit (r : Round g) (v u : g.Node) :
    (r.commit v).excess[u] = if u = v then r.excess[v] + r.added[v] else r.excess[u] := by
  have hexcess : (r.commit v).excess = r.excess.put v (r.excess[v] + r.added[v]) := by
    unfold commit settle
    dsimp only
    split
    · rfl
    · unfold setLabel
      dsimp only
      split <;> rfl
  rw [hexcess, Vector.getElem_put]

theorem added_commit_of_ne (r : Round g) (hu : u ≠ v) : (r.commit v).added[u] = r.added[u] := by
  have hadded : (r.commit v).added = r.added.put v 0 := by
    unfold commit settle
    dsimp only
    split
    · rfl
    · unfold setLabel
      dsimp only
      split <;> rfl
  rw [hadded, Vector.getElem_put, if_neg hu]

/-- What was added to the nodes that took turns is settled once. -/
theorem excess_foldl_commit (hnodup : vs.Nodup) (u : g.Node) :
    (vs.foldl (fun r v => r.commit v) r).excess[u] =
      if u ∈ vs then r.excess[u] + r.added[u] else r.excess[u] := by
  induction vs generalizing r with
  | nil => simp
  | cons v vs ih =>
      obtain ⟨hv, hnodup⟩ := List.nodup_cons.mp hnodup
      rw [List.foldl_cons, ih hnodup, excess_commit]
      by_cases hu : u = v
      · subst hu
        rw [if_neg hv, if_pos rfl, if_pos List.mem_cons_self]
      · rw [added_commit_of_ne r hu, if_neg hu]
        exact if_congr (by rw [List.mem_cons, or_iff_right hu]) rfl rfl

omit [Quantity K] in
theorem excess_closeGap (r : Round g) : r.closeGap.excess = r.excess := by
  unfold closeGap
  dsimp only
  split <;> rfl

theorem excess_close (r : Round g) (hu : u ≠ sink) : (r.close sink).excess[u] = r.excess[u] := by
  unfold close settle
  rw [Vector.getElem_put, if_neg hu]

/-- A node that was not found is not settled again. -/
theorem excess_ending_of_not_mem (hnodup : vs.Nodup) (hsink : u ≠ sink)
    (hfound : u ∉ r.found.toList) : (r.ending sink vs).excess[u] =
      if u ∈ vs then r.excess[u] + r.added[u] else r.excess[u] := by
  have hfound' : u ∉ (vs.foldl (fun r v => r.commit v) r).closeGap.found.toList := by
    rwa [← found_settleFound vs r, settleFound_eq, found_foldl_release] at hfound
  rw [ending, excess_close _ hsink, settleFound_eq, excess_foldl_release _ _ hfound',
    excess_closeGap, excess_foldl_commit hnodup]

/-- If a node that is done was not found, it is not active in the end. -/
theorem not_isActive_ending [Rounded K] (hnodup : vs.Nodup) (hv : v ∈ vs) (hsink : v ≠ sink)
    (hdone : r.Done v r.excess[v]) (hdiscovered : r.discovered[v] ≠ true)
    (hfound : v ∉ r.found.toList) : ¬ (r.ending sink vs).IsActive v := by
  rintro ⟨hpos, hlabel⟩
  rcases hdone.resolve_left hdiscovered with hstaged | hnothing
  · have hnext : r.nextLabel v = r.staged[v] := by
      unfold nextLabel
      exact if_neg fun h => hdiscovered h.2.2
    rw [labels_ending_eq] at hlabel
    rcases labels_closeGap (vs.foldl (fun r v => r.commit v) r) v with heq | ⟨heq, -⟩
    · rw [heq, labels_foldl_commit hnodup, if_pos hv, hnext] at hlabel
      exact hlabel.not_ge hstaged
    · exact hlabel.ne heq
  · rw [excess_ending_of_not_mem hnodup hsink hfound, if_pos hv, hnothing] at hpos
    exact Rounded.not_zero_lt_zero hpos

/-- A node that took no turn and was not found is active in the end only if it was so before. -/
theorem isActive_of_ending (hnodup : vs.Nodup) (hv : v ∉ vs) (hsink : v ≠ sink)
    (hfound : v ∉ r.found.toList) (h : (r.ending sink vs).IsActive v) : r.IsActive v := by
  obtain ⟨hpos, hlabel⟩ := h
  rw [excess_ending_of_not_mem hnodup hsink hfound, if_neg hv] at hpos
  refine ⟨hpos, ?_⟩
  rw [labels_ending_eq] at hlabel
  rcases labels_closeGap (vs.foldl (fun r v => r.commit v) r) v with heq | ⟨heq, -⟩
  · rwa [heq, labels_foldl_commit hnodup, if_neg hv] at hlabel
  · exact absurd heq hlabel.ne

end Round

namespace Rounds

variable {s t p q : Rounds g} {start : Preflow g} {u w : Unit}

/-- The working set has the active nodes, and the counters are right. -/
structure Booked (source sink : g.Node) (s : Rounds g) : Prop where
  mem_iff : ∀ v, v ∈ s.workingSet.toList ↔ v ≠ source ∧ v ≠ sink ∧ s.IsActive v
  counted : s.Counted

theorem booked_of_relabel (hne : source ≠ sink) (h : relabel source sink s = .ok u t) :
    t.Booked source sink := by
  refine ⟨fun v => ?_, ?_⟩
  · obtain ⟨-, -, hlists, -⟩ := relabel_eq_ok hne h
    rw [hlists.toList_eq, Preflow.mem_active]
  · unfold relabel at h
    obtain ⟨_, s₁, -, h⟩ := bind_eq_ok_iff.mp h
    rw [modify_bind, get_bind] at h
    obtain ⟨_, s₃, hrefill, h⟩ := bind_eq_ok_iff.mp h
    obtain rfl := modify_eq_ok_iff.mp h
    obtain ⟨hround, -⟩ := refill_eq_ok hrefill
    have hreset : Round.Counted
        { s₁ with counts := s₁.counts.map fun _ => .reset s₁.labels.toArray } := by
      intro c hc
      obtain ⟨_, -, rfl⟩ := Option.map_eq_some_iff.mp hc
      exact Gap.Counts.tracks_reset _
    exact hreset.congr (congrArg Round.counts hround) (congrArg (fun r => r.labels) hround)

theorem Booked.round [Rounded K] (h : s.Booked source sink) (hkept : s.Kept start source sink)
    (hfinite : ∀ v, v ≠ source → v ≠ sink → isFinite s.excess[v] = true)
    (hdischarge : discharge sink s = .ok u p) (hrenew : renew sink p = .ok w q) :
    q.Booked source sink := by
  obtain ⟨hround, hlists, hcommitted⟩ := round_eq_ok hkept.lists.cursor_eq hdischarge hrenew
  have hswept := hkept.swept
  have huntouched := untouched_swept sink s
  have hdone : ∀ v ∈ s.workingSet.toList, (s.swept sink).Done v s.excess[v] := by
    intro v hv
    obtain ⟨hsource, hsink, hactive⟩ := (h.mem_iff v).mp hv
    exact Round.done_foldl_discharge hkept.nodup hv hsink (hfinite v hsource hsink) hactive.1
      (hkept.idle.added_eq v)
  generalize s.swept sink = r at *
  rw [hcommitted] at hlists
  refine ⟨fun v => ?_, ?_⟩
  · rw [hlists.toList_eq, Round.survivors, List.mem_filter, Round.found_settleFound,
      decide_eq_true_iff]
    constructor
    · rintro ⟨hfound, hactive⟩
      obtain ⟨hsource, hsink⟩ := hswept.inner v hfound
      refine ⟨hsource, hsink, ?_⟩
      rw [hround]
      exact (Round.isActive_close _ hsink).mpr hactive
    · rintro ⟨hsource, hsink, hactive⟩
      rw [hround] at hactive
      refine ⟨?_, (Round.isActive_close _ hsink).mp hactive⟩
      by_contra hfound
      have hdiscovered : r.discovered[v] ≠ true := fun hv =>
        hfound ((hswept.mem_found_iff v).mpr hv)
      -- a node of the round that is not found has sent all it had, any other one was not active
      by_cases hv : v ∈ s.workingSet.toList
      · have hexcess : r.excess[v] = s.excess[v] := by rw [huntouched.excess_eq]; rfl
        refine Round.not_isActive_ending hkept.nodup hv hsink ?_ hdiscovered hfound hactive
        rw [hexcess]
        exact hdone v hv
      · have hbefore := Round.isActive_of_ending hkept.nodup hv hsink hfound hactive
        exact hv ((h.mem_iff v).mpr ⟨hsource, hsink, huntouched.isActive_iff.mp hbefore⟩)
  · rw [hround]
    exact (h.counted.congr huntouched.counts_eq huntouched.labels_eq).ending _ sink

/-- What a pass may be started with: a new engine, one whose passes so far ended well, or one
that was given another preflow. An engine that was interrupted is not used again. -/
inductive Offered : Rounds g → Prop
  | start (strategy : GapStrategy) (batch : Nat) (p : Pass g) : Offered (.start strategy batch p)
  | resumed {s : Rounds g} (hs : Offered s) (p : Preflow g) (journal : Journal K) :
      Offered { s with toPreflow := p, journal := journal }
  | finished {s t : Rounds g} {threshold fuel : Nat} {source sink : g.Node} (hs : Offered s)
      (hne : source ≠ sink) (hrun : run threshold fuel source sink s = .ok () t) : Offered t

/-- Nothing is unsettled when a pass starts, and each node has a slot. -/
theorem Offered.clear (h : s.Offered) :
    (∀ v : g.Node, s.added[v] = 0) ∧ s.workingSet.capacity = g.nodeCount := by
  induction h with
  | start strategy batch p =>
      exact ⟨fun v => by simp [Rounds.start, Round.start], Array.size_replicate⟩
  | resumed _ _ _ ih => exact ih
  | finished _ hne hrun ih =>
      have hkept := (between_of_run hrun).1.kept hne ih.1
      exact ⟨hkept.idle.added_eq, (capacity_of_run ih.1 hne hrun).trans ih.2⟩

end Rounds

/-- Tenths are not doubles, so what is sent here is rounded. -/
def Problem.tenths : Problem Float where
  network := ⟨5, #[#[(1, 0.1), (2, 0.7)], #[(3, 0.1), (2, 0.2)], #[(3, 0.2)], #[]],
    by decide +kernel⟩
  limits := Vector.replicate _ none
  sources := .map [(0, 0.9)]
  targets := .map [(3, 0.3)]

namespace Rounds

/-- An engine that is about to start the first pass over a flow graph, in batches of two nodes. -/
def tenthsStart (g : FlowGraph Float) : Rounds g :=
  .start .counts 2 (.start 2 (Preflow.ofFlow g.initialFlow).saturate (.start false none))

end Rounds

end PushRelabel
