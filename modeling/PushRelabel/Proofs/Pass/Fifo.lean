import PushRelabel.Proofs.Pass.Queueing

/-! # What first-in, first-out discharging achieves

With exact arithmetic every push is as large as the residual and the excess allow,
so after a dart was scanned it is saturated or the excess is gone. The darts that are
left are sorted by label, so no residual dart leads further down than the next one,
and raising the node just above its end keeps labels valid. If excess is left after
the scan, all residual darts lead to retired nodes.
-/

namespace PushRelabel.Fifo

variable {K : Type} [AddCommGroup K] [LinearOrder K] {g : FlowGraph K}
  {giver source sink v : g.Node} {start : Preflow g} {s t : Fifo g}

structure Sound (start : Preflow g) (giver source sink : g.Node) (s : Fifo g) : Prop where
  balanced : start.Balanced giver s.toPreflow
  validLabels : g.ValidLabels s.flow s.labels source sink

/-- The darts of a node that are still to be scanned, with the labels at their ends.
All other residual darts lead to retired nodes. -/
structure Scanning (v : g.Node) (cs : List (Nat × g.DartOf)) (s : Fifo g) : Prop where
  sorted : cs.Pairwise fun a b => a.1 ≤ b.1
  mem_darts : ∀ c ∈ cs, c.2 ∈ g.darts v
  label_eq : ∀ c ∈ cs, c.1 = s.labels[c.2.other]
  label_lt : ∀ c ∈ cs, c.1 < g.nodeCount
  covers : ∀ d ∈ g.darts v, 0 < g.residual s.flow d →
    g.nodeCount ≤ s.labels[d.other] ∨ ∃ c ∈ cs, c.2 = d

theorem scanning_candidates (s : Fifo g) (v : g.Node) : s.Scanning v (s.candidates v) := by
  refine ⟨?_, fun c hc => ?_, fun c hc => ?_, fun c hc => ?_, fun d hd hresidual => ?_⟩
  · refine (List.pairwise_mergeSort ?_ ?_ _).imp fun hle => decide_eq_true_iff.mp hle
    · intro a b c hab hbc
      exact decide_eq_true ((decide_eq_true_iff.mp hab).trans (decide_eq_true_iff.mp hbc))
    · intro a b
      simpa using le_total a.1 b.1
  · exact (mem_candidates_iff.mp hc).1
  · exact (mem_candidates_iff.mp hc).2.1
  · exact (mem_candidates_iff.mp hc).2.2.1
  · refine (le_or_gt g.nodeCount s.labels[d.other]).imp_right fun hlt => ?_
    exact ⟨(s.labels[d.other], d), mem_candidates_iff.mpr ⟨hd, rfl, hlt, hresidual⟩, rfl⟩

namespace Scanning

variable {label : Nat} {d : g.DartOf} {cs : List (Nat × g.DartOf)}

/-- No residual dart leads further down than the next one to be scanned. -/
theorem label_le (h : s.Scanning v ((label, d) :: cs)) {e : g.DartOf} (he : e ∈ g.darts v)
    (hresidual : 0 < g.residual s.flow e) : label ≤ s.labels[e.other] := by
  rcases h.covers e he hresidual with hge | ⟨c, hc, rfl⟩
  · exact (h.label_lt _ List.mem_cons_self).le.trans hge
  · rw [← h.label_eq c hc]
    rcases List.mem_cons.mp hc with rfl | hmem
    · exact le_rfl
    · exact (List.pairwise_cons.mp h.sorted).1 c hmem

/-- Raising the node does not change what its darts see. -/
theorem congr (h : s.Scanning v cs) (hproper : g.Proper) (hflow : t.flow = s.flow)
    (hlabels : ∀ u : g.Node, u ≠ v → t.labels[u] = s.labels[u]) : t.Scanning v cs := by
  refine ⟨h.sorted, h.mem_darts, fun c hc => ?_, h.label_lt, fun e he hresidual => ?_⟩
  · rw [h.label_eq c hc, hlabels _ (hproper.other_ne (h.mem_darts c hc))]
  · rw [hflow] at hresidual
    rw [hlabels _ (hproper.other_ne he)]
    exact h.covers e he hresidual

/-- A saturated dart is done with. -/
theorem tail (h : s.Scanning v ((label, d) :: cs)) (hdone : g.residual s.flow d ≤ 0) :
    s.Scanning v cs := by
  refine ⟨(List.pairwise_cons.mp h.sorted).2, fun c hc => h.mem_darts c (List.mem_cons_of_mem _ hc),
    fun c hc => h.label_eq c (List.mem_cons_of_mem _ hc),
    fun c hc => h.label_lt c (List.mem_cons_of_mem _ hc), fun e he hresidual => ?_⟩
  apply (h.covers e he hresidual).imp_right
  rintro ⟨c, hc, rfl⟩
  rcases List.mem_cons.mp hc with rfl | hmem
  · exact absurd hresidual hdone.not_gt
  · exact ⟨c, hmem, rfl⟩

end Scanning

theorem toPreflow_send (s : Fifo g) (sink v : g.Node) (d : g.DartOf) :
    (s.send sink v d).toPreflow =
      s.toPreflow.send v d (min s.excess[v] (g.residual s.flow d)) := by
  unfold send
  rw [Quantity.least_eq_min]
  dsimp only
  split
  · rfl
  · rw [toPass_enqueue]

variable [IsOrderedAddMonoid K]

namespace Scanning

variable {label : Nat} {d : g.DartOf} {cs : List (Nat × g.DartOf)}

/-- If excess is left after sending, the dart is saturated. -/
theorem send (h : s.Scanning v ((label, d) :: cs)) (hproper : g.Proper)
    (hleft : 0 < (s.send sink v d).excess[v]) : (s.send sink v d).Scanning v cs := by
  have hd := h.mem_darts _ List.mem_cons_self
  rw [toPreflow_send, Preflow.excess_send, if_neg (hproper.other_ne hd).symm, if_pos rfl, add_zero,
    sub_pos] at hleft
  -- what is left was not the smaller of the two amounts
  have hamount : min s.excess[v] (g.residual s.flow d) = g.residual s.flow d :=
    min_eq_right (le_of_not_ge fun hle => hleft.ne (min_eq_left hle))
  have hflow : (s.send sink v d).flow = g.push s.flow d (g.residual s.flow d) := by
    rw [toPreflow_send, hamount, Preflow.flow_send]
  have hlabels : (s.send sink v d).labels = s.labels := by
    rw [toPreflow_send, Preflow.labels_send]
  have hsent : (s.send sink v d).Scanning v ((label, d) :: cs) := by
    refine ⟨h.sorted, h.mem_darts, ?_, h.label_lt, fun e he hresidual => ?_⟩
    · rw [hlabels]
      exact h.label_eq
    · rw [hflow, FlowGraph.residual_push] at hresidual
      rw [hlabels]
      by_cases harc : e.arc = d.arc
      · exact Or.inr ⟨(label, d), List.mem_cons_self, (hproper.dart_eq hd he harc).symm⟩
      · rw [if_neg harc, add_zero] at hresidual
        exact h.covers e he hresidual
  apply hsent.tail
  rw [hflow, FlowGraph.residual_push, if_pos rfl, if_pos rfl, add_neg_cancel]

end Scanning

namespace Sound

variable {label : Nat} {d : g.DartOf} {cs : List (Nat × g.DartOf)}

omit [IsOrderedAddMonoid K] in
theorem move (h : s.Sound start giver source sink) {emptied : Bool}
    (hmoved : s.Moved v label t emptied) (hsource : v ≠ source) (hsink : v ≠ sink)
    (hge : s.labels[v] ≤ label) (hle : label ≤ g.nodeCount)
    (hdarts : ∀ d ∈ g.darts v, 0 < g.residual s.flow d → d.other ≠ v →
      label ≤ s.labels[d.other] + 1) : t.Sound start giver source sink := by
  exact ⟨h.balanced.congr hmoved.flow_eq hmoved.excess_eq,
    hmoved.validLabels h.validLabels hsource hsink hge hle hdarts⟩

omit [IsOrderedAddMonoid K] in
/-- Raising a node above the end of the next dart keeps labels valid. If that does not
retire the node, the darts see what they saw before. -/
theorem raiseLabel (h : s.Sound start giver source sink) (hproper : g.Proper)
    (htracks : s.gaps.Tracks s.labels) (hsource : v ≠ source) (hsink : v ≠ sink)
    (hscanning : s.Scanning v ((label, d) :: cs)) :
    (s.raiseLabel v (label + 1)).1.Sound start giver source sink ∧
      ((s.raiseLabel v (label + 1)).2 = false →
        (s.raiseLabel v (label + 1)).1.Scanning v ((label, d) :: cs) ∧
          label < (s.raiseLabel v (label + 1)).1.labels[v]) := by
  unfold Fifo.raiseLabel
  split
  next hlt =>
    have hmoved := moved_setLabel htracks v (label + 1)
    have hle := hscanning.label_lt _ List.mem_cons_self
    refine ⟨h.move hmoved hsource hsink hlt.le hle fun e he hresidual _ => ?_, fun hkept => ?_⟩
    · exact Nat.succ_le_succ (hscanning.label_le he hresidual)
    · rw [hkept] at hmoved
      refine ⟨hscanning.congr hproper hmoved.flow_eq fun u hu => ?_, ?_⟩
      · rw [hmoved.label_eq_of_kept, if_neg hu]
      · rw [hmoved.label_eq_of_kept, if_pos rfl]
        exact Nat.lt_succ_self label
  next hnot => exact ⟨h, fun _ => ⟨hscanning, Nat.lt_of_succ_le (not_lt.mp hnot)⟩⟩

theorem send (h : s.Sound start giver source sink) (hgiver : v ≠ giver)
    (hscanning : s.Scanning v ((label, d) :: cs)) (hlabel : label < s.labels[v])
    (hresidual : 0 < g.residual s.flow d) : (s.send sink v d).Sound start giver source sink := by
  have hd := hscanning.mem_darts _ List.mem_cons_self
  have hnonneg : 0 ≤ min s.excess[v] (g.residual s.flow d) :=
    le_min (h.balanced.excess_nonneg v hgiver) hresidual.le
  refine ⟨?_, ?_⟩
  · rw [toPreflow_send]
    exact h.balanced.send hd hnonneg (min_le_right _ _) fun _ => min_le_left _ _
  · rw [toPreflow_send, Preflow.flow_send, Preflow.labels_send]
    have hend : label = s.labels[d.other] := hscanning.label_eq _ List.mem_cons_self
    exact h.validLabels.push hd hnonneg (hend ▸ hlabel.le.trans (Nat.le_succ _))

end Sound

/-- What holds in the middle of a scan, when some candidates are still to be looked at. -/
structure Amid (start : Preflow g) (giver source sink v : g.Node) (cs : List (Nat × g.DartOf))
    (s : Fifo g) : Prop where
  sound : s.Sound start giver source sink
  kept : s.Kept start source sink (some v)
  scanning : s.Scanning v cs

namespace Amid

variable {label : Nat} {d : g.DartOf} {cs : List (Nat × g.DartOf)}

omit [IsOrderedAddMonoid K] in
/-- The source has the sentinel as its label, so no candidate leads there. -/
theorem other_ne_source (h : s.Amid start giver source sink v ((label, d) :: cs)) :
    d.other ≠ source := by
  rintro rfl
  have hlabel := h.scanning.label_eq _ List.mem_cons_self
  exact (h.scanning.label_lt _ List.mem_cons_self).ne (hlabel.trans h.kept.source_eq)

omit [IsOrderedAddMonoid K] in
theorem raiseLabel (h : s.Amid start giver source sink v ((label, d) :: cs)) (hproper : g.Proper)
    (hsource : v ≠ source) (hsink : v ≠ sink) :
    (s.raiseLabel v (label + 1)).1.Sound start giver source sink ∧
      ((s.raiseLabel v (label + 1)).2 = false →
        (s.raiseLabel v (label + 1)).1.Amid start giver source sink v ((label, d) :: cs) ∧
          label < (s.raiseLabel v (label + 1)).1.labels[v]) := by
  have hlt := h.scanning.label_lt _ List.mem_cons_self
  obtain ⟨hraised, -⟩ := h.kept.raiseLabel v (label + 1) hlt
  obtain ⟨hsound, hnext⟩ := h.sound.raiseLabel hproper h.kept.tracks hsource hsink h.scanning
  refine ⟨hsound, fun hstays => ?_⟩
  obtain ⟨hscanning, habove⟩ := hnext hstays
  exact ⟨⟨hsound, hraised, hscanning⟩, habove⟩

omit [IsOrderedAddMonoid K] in
theorem tail (h : s.Amid start giver source sink v ((label, d) :: cs))
    (hdone : g.residual s.flow d ≤ 0) : s.Amid start giver source sink v cs :=
  ⟨h.sound, h.kept, h.scanning.tail hdone⟩

/-- After sending, the scan goes on if there is excess left. -/
theorem send (h : s.Amid start giver source sink v ((label, d) :: cs)) (hproper : g.Proper)
    (hgiver : v ≠ giver) (hsource : v ≠ source) (hlabel : label < s.labels[v])
    (hresidual : 0 < g.residual s.flow d) :
    (s.send sink v d).Sound start giver source sink ∧
      (0 < (s.send sink v d).excess[v] →
        (s.send sink v d).Amid start giver source sink v cs) := by
  have hd := h.scanning.mem_darts _ List.mem_cons_self
  have hsound := h.sound.send hgiver h.scanning hlabel hresidual
  have hkept := h.kept.send hd hsource h.other_ne_source
  exact ⟨hsound, fun hleft => ⟨hsound, hkept, h.scanning.send hproper hleft⟩⟩

/-- If a scan ends without retiring the node and leaves excess, nothing can be sent to
a node that is not retired. -/
theorem scan (h : s.Amid start giver source sink v cs) (hproper : g.Proper) (hgiver : v ≠ giver)
    (hsource : v ≠ source) (hsink : v ≠ sink) :
    (scan sink v cs s).1.Sound start giver source sink ∧
      ((Fifo.scan sink v cs s).2 = false → 0 < (Fifo.scan sink v cs s).1.excess[v] →
        (Fifo.scan sink v cs s).1.Scanning v []) := by
  induction cs generalizing s with
  | nil => exact ⟨h.sound, fun _ _ => h.scanning⟩
  | cons c cs ih =>
      rcases c with ⟨label, d⟩
      obtain ⟨hsound, hnext⟩ := h.raiseLabel hproper hsource hsink
      unfold Fifo.scan
      dsimp only
      split
      next => exact ⟨hsound, Bool.noConfusion⟩
      next hstays =>
        obtain ⟨hraised, habove⟩ := hnext (Bool.eq_false_iff.mpr hstays)
        split
        next hdone => exact ih (hraised.tail hdone)
        next hopen =>
          obtain ⟨hsent, hrest⟩ := hraised.send hproper hgiver hsource habove (not_le.mp hopen)
          split
          next hgone => exact ⟨hsent, fun _ hpos => absurd hpos hgone.not_gt⟩
          next hleft => exact ih (hrest (not_le.mp hleft))

end Amid

theorem Sound.discharge (h : s.Sound start giver source sink) (hproper : g.Proper)
    (hkept : s.Kept start source sink (some v)) (hgiver : v ≠ giver) (hsource : v ≠ source)
    (hsink : v ≠ sink) :
    (s.discharge sink v).Sound start giver source sink := by
  have hamid : s.Amid start giver source sink v (s.candidates v) :=
    ⟨h, hkept, s.scanning_candidates v⟩
  obtain ⟨hscanned, hend⟩ := hamid.scan hproper hgiver hsource hsink
  obtain ⟨hdone, -⟩ := hkept.scan_candidates hsource
  unfold Fifo.discharge
  dsimp only
  split
  next hleft =>
    obtain ⟨hstays, hpos⟩ := hleft
    have hmoved := moved_setLabel hdone.tracks v g.nodeCount
    refine hscanned.move hmoved hsource hsink (hdone.le_nodeCount v) le_rfl
      fun e he hresidual _ => ?_
    -- every residual dart leads to a retired node, so this is no jump
    rcases (hend hstays hpos).covers e he hresidual with hge | ⟨c, hc, -⟩
    · exact hge.trans (Nat.le_succ _)
    · exact absurd hc List.not_mem_nil
  next => exact hscanned

theorem Between.sound {threshold : Nat} (h : Between threshold source sink s t)
    (hproper : g.Proper) (hne : source ≠ sink) (hgiver : giver = source ∨ giver = sink)
    (hfits : g.Fits s.flow) (hexcess : ∀ v : g.Node, v ≠ giver → 0 ≤ s.excess[v]) :
    t.Sound s.toPreflow giver source sink := by
  induction h with
  | started journal hrelabel =>
      obtain ⟨hflow, hsame, hexact, -⟩ :=
        relabel_eq_ok hne (Preflow.leavesAlone_refl _ source) (queues_cleared s) hrelabel
      have hstart := Preflow.balanced_refl (p := s.toPreflow) hfits hexcess
      exact ⟨hstart.congr hflow hsame, hexact.toValidLabels⟩
  | passedOver _ _ _ ih => exact ⟨ih.balanced, ih.validLabels⟩
  | @discharged t v queue ht hpop _ ih =>
      obtain ⟨hsource, hsink, htaken⟩ := (ht.kept hne).taken hpop
      have hinner : v ≠ giver := by
        rintro rfl
        exact hgiver.elim hsource hsink
      have hsound : (t.taken v queue).Sound s.toPreflow giver source sink :=
        ⟨ih.balanced, ih.validLabels⟩
      have hdone := hsound.discharge hproper htaken hinner hsource hsink
      exact ⟨hdone.balanced, hdone.validLabels⟩
  | relabelled ht _ hrelabel ih =>
      have hkept := ht.kept hne
      obtain ⟨hflow, hsame, hexact, -⟩ :=
        relabel_eq_ok hne hkept.leavesAlone hkept.queues hrelabel
      exact ⟨ih.balanced.congr hflow hsame, hexact.toValidLabels⟩

theorem settled_of_run {threshold fuel : Nat} (hproper : g.Proper) (hne : source ≠ sink)
    (hgiver : giver = source ∨ giver = sink)
    (hfits : g.Fits s.flow) (hexcess : ∀ v : g.Node, v ≠ giver → 0 ≤ s.excess[v]) {u : Unit}
    (h : run threshold fuel source sink s = .ok u t) :
    s.toPreflow.Settled giver source sink t.toPreflow := by
  -- that the queue is empty at the end says that no node is active only because no active
  -- node was lost
  obtain ⟨hbetween, hempty⟩ := between_of_run h
  have hkept := hbetween.kept hne
  have hsound := hbetween.sound hproper hne hgiver hfits hexcess
  refine ⟨hsound.balanced, hkept.leavesAlone, hsound.validLabels, fun v hsource hsink hpos => ?_⟩
  by_contra hlabel
  have hlt := lt_of_le_of_ne (hkept.le_nodeCount v) hlabel
  have hmem := hkept.waiting v nofun hsource hsink ⟨hpos, hlt⟩
  rw [hempty] at hmem
  exact List.not_mem_nil hmem

end PushRelabel.Fifo
