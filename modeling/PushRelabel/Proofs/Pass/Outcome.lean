import PushRelabel.Proofs.Pass.Closing
import PushRelabel.Proofs.Pass.Rounds

/-! # What a round achieves

Between two rounds the working set consists of the active nodes. A node that is sent something
in a round has excess after it; labels are not lowered; and the nodes that are active after a
round were found in it, and follow each other in the order in which they were found.
-/

namespace PushRelabel.Rounds

open Round (Lineup)

variable {K : Type} [AddCommGroup K] [LinearOrder K] {g : FlowGraph K}
  {giver source sink v : g.Node} {start : Preflow g} {s t : Rounds g} {d : g.DartOf}

/-- A round leads from a state to the next one. -/
def Advances (sink : g.Node) (s t : Rounds g) : Prop :=
  ∃ p, discharge sink s = .ok () p ∧ renew sink p = .ok () t

/-- In the next round a node sends along one of its darts. -/
def Sends (sink : g.Node) (s : Rounds g) (v : g.Node) (d : g.DartOf) : Prop :=
  Round.Sends sink s.workingSet.toList s.opening v d

/-- What holds between two rounds, once the labels were computed. -/
structure Poised (start : Preflow g) (giver source sink : g.Node) (s : Rounds g) : Prop where
  kept : s.Kept start source sink
  balanced : start.Balanced giver s.toPreflow
  mem_iff : ∀ v : g.Node, v ∈ s.workingSet.toList ↔ v ∈ s.active source sink
  emptied_eq : s.emptied = #[]
  label_le : ∀ v : g.Node, s.labels[v] ≤ g.nodeCount

namespace Poised

theorem lineup (h : s.Poised start giver source sink) : s.opening.Lineup s.workingSet.toList :=
  ⟨h.kept.nodup, fun v hv => (Preflow.mem_active.mp ((h.mem_iff v).mp hv)).2.2⟩

theorem not_discovered (h : s.Poised start giver source sink) (v : g.Node) :
    s.opening.discovered[v] ≠ true := by
  change s.discovered[v] ≠ true
  rw [h.kept.idle.discovered_eq v]
  exact Bool.false_ne_true

theorem emptied_swept (h : s.Poised start giver source sink) (sink' : g.Node) :
    (s.swept sink').emptied = #[] :=
  (Rounds.emptied_swept sink' s).trans h.emptied_eq

end Poised

theorem Advances.kept (hadvances : s.Advances sink t) (h : s.Kept start source sink)
    (hne : source ≠ sink) : t.Kept start source sink := by
  obtain ⟨p, hdischarge, hrenew⟩ := hadvances
  exact h.round hne hdischarge hrenew

theorem Advances.toRound_eq (hadvances : s.Advances sink t) (h : s.Kept start source sink) :
    t.toRound = (s.swept sink).ending sink s.workingSet.toList := by
  obtain ⟨p, hdischarge, hrenew⟩ := hadvances
  exact (round_eq_ok h.lists.cursor_eq hdischarge hrenew).1

/-- The active nodes follow each other in the order in which they were found. -/
theorem Advances.toList_eq (hadvances : s.Advances sink t) (h : s.Kept start source sink) :
    t.workingSet.toList = (s.swept sink).found.toList.filter t.IsActive := by
  obtain ⟨p, hdischarge, hrenew⟩ := hadvances
  obtain ⟨hround, hlists, hp⟩ := round_eq_ok h.lists.cursor_eq hdischarge hrenew
  have hclosed := (h.discharge hdischarge).closeGap
  have hfound : p.closeGap.settleFound.found = (s.swept sink).found := by
    rw [hp]
    exact Round.found_settleFound _ _
  rw [hlists.toList_eq, Round.survivors, hfound]
  refine List.filter_congr fun v hv => ?_
  -- settling the sink last does not matter to the nodes that were found
  have hsink : v ≠ sink := by
    rw [← hfound, Round.settleFound_eq, Round.found_foldl_release] at hv
    exact (hclosed.inner v hv).2
  rw [(renew_eq_ok hrenew).1]
  exact decide_eq_decide.mpr (Round.isActive_close _ hsink).symm

theorem sink_not_mem (h : s.Kept start source sink) : sink ∉ s.workingSet.toList :=
  fun hmem => (h.inner sink hmem).2 rfl

section Round

variable [IsOrderedAddMonoid K] (hproper : g.Proper) (h : s.Poised start giver source sink)

include hproper h

theorem staged_bounds (hv : v ∈ s.workingSet.toList) :
    (s.swept sink).labels[v] ≤ (s.swept sink).staged[v] ∧
      (s.swept sink).staged[v] ≤ g.nodeCount := by
  simp only [labels_swept]
  exact Round.staged_bounds sink hproper h.lineup hv

theorem label_lt_of_sends (hsends : s.Sends sink v d) :
    s.labels[v] ≤ s.labels[d.other] + 1 ∧ s.labels[d.other] + 1 < g.nodeCount := by
  have hsent := Round.Sends.sent hproper h.lineup hsends
  exact ⟨hsent.1, hsent.2.1⟩

/-- Nodes do not send to the source, whose label is the sentinel. -/
theorem other_ne_source (hsends : s.Sends sink v d) : d.other ≠ source := by
  intro heq
  have hlt := (label_lt_of_sends hproper h hsends).2
  simp only [heq, h.kept.idle.source_eq] at hlt
  omega

/-- A node that sends to another one of the working set wins against it. -/
theorem wins_of_sends (hsends : s.Sends sink v d) (hother : d.other ∈ s.workingSet.toList) :
    Round.wins s.labels v d.other := by
  have hsent := Round.Sends.sent hproper h.lineup hsends
  have hpos : 0 < s.excess[d.other] := (h.lineup.active _ hother).1
  rcases hsent.2.2.1 with hsink | hspent | hwins
  · exact absurd (hsink ▸ hother) (sink_not_mem h.kept)
  · exact absurd hpos hspent
  · exact hwins

variable (hadvances : s.Advances sink t)

include hadvances

omit hproper [IsOrderedAddMonoid K] in
theorem flow_advances : t.flow = (s.swept sink).flow := by
  rw [hadvances.toRound_eq h.kept]
  exact (Round.sameHeld_ending _ _ sink).flow_eq

theorem label_le_advances (v : g.Node) : s.labels[v] ≤ t.labels[v] := by
  have hle := Round.le_labels_ending h.kept.nodup (h.emptied_swept sink)
    (fun u hu => (staged_bounds hproper h hu).1) sink v
  simp only [labels_swept] at hle
  rwa [hadvances.toRound_eq h.kept]

omit hproper [IsOrderedAddMonoid K] in
/-- Labels below those of all active nodes do not change. -/
theorem label_eq_advances {level : Nat} (hlevel : ∀ v ∈ s.workingSet.toList, level ≤ s.labels[v])
    (hv : s.labels[v] < level) : t.labels[v] = s.labels[v] := by
  have hlabels := labels_swept sink s
  have heq := Round.labels_ending_of_lt (v := v) h.kept.nodup (h.emptied_swept sink)
    (fun u hu => by simp only [hlabels]; exact hlevel u hu) sink (by simp only [hlabels]; exact hv)
  simp only [hlabels] at heq
  rwa [hadvances.toRound_eq h.kept]

/-- An active node whose label does not change has staged it, or reaches the sentinel but is
discovered. -/
theorem staged_of_label_eq (hv : v ∈ s.workingSet.toList) (heq : t.labels[v] = s.labels[v]) :
    (s.swept sink).staged[v] = s.labels[v] ∨
      (s.swept sink).staged[v] = g.nodeCount ∧ (s.swept sink).discovered[v] = true := by
  have hlt : t.labels[v] < g.nodeCount := heq.trans_lt (h.lineup.active v hv).2
  rw [hadvances.toRound_eq h.kept] at heq hlt
  rcases Round.staged_of_labels_ending h.kept.nodup (h.emptied_swept sink) hv hlt with
    hstaged | ⟨-, hle, hfound⟩
  · exact Or.inl (hstaged.symm.trans heq)
  · exact Or.inr ⟨le_antisymm (staged_bounds hproper h hv).2 hle, hfound⟩

/-- A node that is not active is not sent from, so its darts admit no less. -/
theorem residual_le_advances (hv : v ∉ s.workingSet.toList) (hd : d ∈ g.darts v) :
    g.residual s.flow d ≤ g.residual t.flow d := by
  rw [flow_advances h hadvances]
  exact (Round.spared_sweep sink hproper h.lineup hv).residual_le d hd

/-- What was sent to a node that has no turn after that can be sent back in the next round. -/
theorem residual_pos_of_sends (hsends : s.Sends sink v d)
    (hother : d.other ∉ s.workingSet.toList ∨ Precedes s.workingSet.toList d.other v)
    {e : g.DartOf} (he : e ∈ g.darts d.other) (harc : e.arc = d.arc)
    (hreversed : e.reversed = !d.reversed) : 0 < g.residual t.flow e := by
  rw [flow_advances h hadvances]
  have hopen := Round.Sends.opposite hproper h.lineup hsends h.balanced.fits harc hreversed
  exact hopen.trans_le
    ((Round.spared_rest sink hproper h.lineup hsends.mem (Or.inr hother)).residual_le e he)

variable (hne : source ≠ sink)

include hne

omit hproper [IsOrderedAddMonoid K] in
theorem excess_advances (v : g.Node) :
    t.excess[v] = s.excess[v] + (s.swept sink).added[v] := by
  have hheld := (Round.sameHeld_ending (s.swept sink) s.workingSet.toList sink).held_eq v
  have hadded := (hadvances.kept h.kept hne).idle.added_eq v
  rw [hadvances.toRound_eq h.kept] at hadded ⊢
  rw [hadded, add_zero, (untouched_swept sink s).excess_eq] at hheld
  exact hheld

/-- What is sent to the sink is delivered to it. -/
theorem delivered_of_sends (hsends : s.Sends sink v d) (hother : d.other = sink) :
    s.excess[sink] < t.excess[sink] := by
  have hadded := Round.Sends.added_lt hproper h.lineup hsends
  simp only [hother, if_neg (sink_not_mem h.kept), add_zero] at hadded
  rw [excess_advances h hadvances hne]
  exact lt_add_of_pos_right _ ((h.kept.idle.added_eq sink).ge.trans_lt hadded)

theorem delivered_le : s.excess[sink] ≤ t.excess[sink] := by
  have hadded := (Round.spared_sweep sink hproper h.lineup (sink_not_mem h.kept)).added_le
  rw [excess_advances h hadvances hne]
  exact le_add_of_nonneg_right ((h.kept.idle.added_eq sink).ge.trans hadded)

/-- A node that is sent something has excess after the round. -/
theorem excess_pos_of_sends (hgiver : giver = source ∨ giver = sink)
    (hsends : s.Sends sink v d) (hother : d.other ≠ sink) : 0 < t.excess[d.other] := by
  have hadded := Round.Sends.added_lt hproper h.lineup hsends
  have hzero : s.opening.added[d.other] = 0 := h.kept.idle.added_eq d.other
  have hsource := other_ne_source hproper h hsends
  have hnonneg : 0 ≤ s.excess[d.other] := h.balanced.excess_nonneg _ fun heq =>
    hgiver.elim (fun hs => hsource (heq.trans hs)) fun hs => hother (heq.trans hs)
  rw [hzero] at hadded
  rw [excess_advances h hadvances hne]
  split at hadded
  next => exact (add_comm _ _).trans_gt hadded
  next =>
    rw [add_zero] at hadded
    exact add_pos_of_nonneg_of_pos hnonneg hadded

/-- A node that is active after the round was found in it. -/
theorem discovered_of_isActive (hsource : v ≠ source) (hsink : v ≠ sink) (hactive : t.IsActive v) :
    (s.swept sink).discovered[v] = true := by
  obtain ⟨hexcess, hlabel⟩ := hactive
  rw [excess_advances h hadvances hne] at hexcess
  by_contra hfound
  have hzero : s.opening.added[v] = 0 := h.kept.idle.added_eq v
  by_cases hv : v ∈ s.workingSet.toList
  · have hstaged : (s.swept sink).staged[v] < g.nodeCount := by
      rw [hadvances.toRound_eq h.kept] at hlabel
      rcases Round.staged_of_labels_ending h.kept.nodup (h.emptied_swept sink) hv hlabel
        with heq | ⟨-, -, hkeeps⟩
      · exact heq.symm.trans_lt hlabel
      · exact absurd hkeeps hfound
    have hspent := Round.excess_of_unfound hproper h.lineup hv hsink hfound hstaged
    rw [hzero] at hspent
    exact hspent.not_gt hexcess
  · have hadded := Round.added_sweep sink hproper h.lineup hv hsink hfound
    rw [swept, hadded, hzero, add_zero] at hexcess
    refine hv ((h.mem_iff v).mpr (Preflow.mem_active.mpr ⟨hsource, hsink, hexcess, ?_⟩))
    exact (label_le_advances hproper h hadvances v).trans_lt hlabel

theorem poised_round : t.Poised start giver source sink := by
  have hkept := hadvances.kept h.kept hne
  have hround := hadvances.toRound_eq h.kept
  refine ⟨hkept, ?_, fun v => ?_, ?_, fun v => ?_⟩
  · obtain ⟨p, hdischarge, hrenew⟩ := hadvances
    exact balanced_round h.kept h.balanced hne hdischarge hrenew
  · constructor
    · intro hv
      obtain ⟨hsource, hsink⟩ := hkept.inner v hv
      rw [hadvances.toList_eq h.kept] at hv
      have hactive := (List.mem_filter.mp hv).2
      exact Preflow.mem_active.mpr ⟨hsource, hsink, of_decide_eq_true hactive⟩
    · intro hv
      obtain ⟨hsource, hsink, hactive⟩ := Preflow.mem_active.mp hv
      have hfound := discovered_of_isActive hproper h hadvances hne hsource hsink hactive
      rw [hadvances.toList_eq h.kept]
      exact List.mem_filter.mpr ⟨(h.kept.swept.mem_found_iff v).mpr hfound, decide_eq_true hactive⟩
  · rw [hround]
    exact Round.emptied_ending _ _ _
  · rw [hround]
    refine Round.labels_ending_le h.kept.nodup (h.emptied_swept sink) (fun u => ?_)
      (fun u hu => (staged_bounds hproper h hu).2) sink v
    simp only [labels_swept]
    exact h.label_le u

omit hproper [IsOrderedAddMonoid K] hadvances hne in
/-- What is found up to the turn of a node is what is discovered by then. -/
theorem mem_found_after (hv : v ∈ s.workingSet.toList) (u : g.Node) :
    u ∈ (Round.after sink s.workingSet.toList s.opening v).found.toList ↔
      (Round.after sink s.workingSet.toList s.opening v).discovered[u] = true := by
  have hinner := h.kept.inner
  have hearlier : ∀ w ∈ s.workingSet.toList.takeWhile (· ≠ v),
      w ∈ s.workingSet.toList ∧ w ≠ source ∧ w ≠ sink := fun w hw =>
    have hmem := List.takeWhile_subset _ hw
    ⟨hmem, hinner w hmem⟩
  have heve := (h.kept.opening s.workingSet.toList).foldl_discharge hearlier
  exact (heve.discharge hv (hinner v hv).1 (hinner v hv).2).mem_found_iff u

omit hne in
/-- The next working set begins with the active nodes that are discovered by the end of the
turn of a node. -/
theorem exists_split (hv : v ∈ s.workingSet.toList) :
    ∃ as bs, t.workingSet.toList = as ++ bs ∧ ∀ u, u ∈ as ↔
      (Round.after sink s.workingSet.toList s.opening v).discovered[u] = true ∧ t.IsActive u := by
  obtain ⟨rest, hrest⟩ :=
    (Round.spared_rest sink hproper h.lineup hv (Or.inl rfl)).found_grows
  refine ⟨(Round.after sink s.workingSet.toList s.opening v).found.toList.filter t.IsActive,
    rest.filter t.IsActive, ?_, fun u => ?_⟩
  · rw [hadvances.toList_eq h.kept, swept, ← hrest, List.filter_append]
  · rw [List.mem_filter, mem_found_after h hv, decide_eq_true_eq]

end Round

/-! ## Recomputing the labels -/

theorem poised_of_relabel (hne : source ≠ sink) (hkept : t.Kept start source sink)
    (hbalanced : start.Balanced giver s.toPreflow) (hemptied : s.emptied = #[]) {u : Unit}
    (hrelabel : relabel source sink s = .ok u t) : t.Poised start giver source sink := by
  obtain ⟨⟨-, -, hexact⟩, ⟨-, -, -, hsame⟩, hlists, -⟩ := relabel_eq_ok hne hrelabel
  refine ⟨hkept, balanced_relabel hbalanced hne hrelabel, fun v => ?_, hsame.trans hemptied,
    hexact.le_nodeCount⟩
  rw [hlists.toList_eq]

theorem Poised.relabel (h : s.Poised start giver source sink) (hne : source ≠ sink) {u : Unit}
    (hrelabel : Rounds.relabel source sink s = .ok u t) : t.Poised start giver source sink :=
  poised_of_relabel hne (h.kept.relabel hne hrelabel) h.balanced h.emptied_eq hrelabel

theorem Poised.record (h : s.Poised start giver source sink) (journal : Journal K) :
    Poised start giver source sink { s with journal := journal } :=
  ⟨h.kept.record journal, h.balanced, h.mem_iff, h.emptied_eq, h.label_le⟩

theorem Between.poised [IsOrderedAddMonoid K] (hproper : g.Proper) (hne : source ≠ sink)
    (hfits : g.Fits s.flow) (hexcess : ∀ v : g.Node, v ≠ giver → 0 ≤ s.excess[v])
    (hadded : ∀ v : g.Node, s.added[v] = 0) (h : Between source sink s t) :
    t.Poised s.toPreflow giver source sink := by
  induction h with
  | @started t journal hrelabel =>
      have hkept : t.Kept s.toPreflow source sink :=
        (Between.started t.journal hrelabel).kept hne hadded
      have hstart := Preflow.balanced_refl (p := s.toPreflow) hfits hexcess
      exact (poised_of_relabel (s := { s with toRound := s.prepare }) hne hkept hstart rfl
        hrelabel).record journal
  | discharged ht hdischarge hrenew ih => exact poised_round hproper ih ⟨_, hdischarge, hrenew⟩ hne
  | relabelled journal _ hrelabel ih => exact (ih.relabel hne hrelabel).record journal
  | @reordered t w vs ht hw hperm ih =>
      refine ⟨ih.kept.reorder hw hperm, ih.balanced, fun v => ?_, ih.emptied_eq, ih.label_le⟩
      change v ∈ w.toList ↔ _
      rw [hw.toList_eq, hperm.mem_iff]
      exact ih.mem_iff v

end PushRelabel.Rounds
