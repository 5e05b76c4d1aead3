import PushRelabel.Proofs.Pass.Fifo
import PushRelabel.Proofs.Potential
import PushRelabel.Proofs.Ready

/-! # First-in, first-out discharging comes to an end

Every node that waits has excess, so a discharge raises a label or sends, always down one
label. Either lowers the potential, which recomputing the labels does not raise, as exact
labels are at least as high as valid ones. A node that is passed over leaves the potential
as it was and the queue shorter.
-/

namespace PushRelabel.Fifo

section Moves

variable {K : Type} [Quantity K] {g : FlowGraph K} {source sink v : g.Node} {start : Preflow g}
  {s t : Fifo g} {busy : Option g.Node}

theorem Moved.potential_lt {label : Nat} {emptied : Bool} (h : s.Moved v label t emptied)
    (hkept : s.Kept start source sink busy) (hlt : s.labels[v] < label)
    (hle : label ≤ g.nodeCount) : t.potential < s.potential := by
  have hmono := h.label_le hlt.le hkept.le_nodeCount
  have hraised : s.labels[v] < t.labels[v] := by
    cases emptied with
    | false =>
        rw [h.label_eq_of_kept, if_pos rfl]
        exact hlt
    | true =>
        rw [h.label_eq_of_emptied hlt hle]
        exact hlt.trans_le hle
  exact Preflow.potential_lt_of_labels hmono (h.le_nodeCount hle hkept.le_nodeCount) hraised

/-- A part of a discharge does nothing and lets the discharge go on, or lowers the potential. -/
def Lowers (s : Fifo g) (r : Fifo g × Bool) : Prop :=
  r = (s, false) ∨ r.1.potential < s.potential

theorem Lowers.after_lt (hlt : t.potential < s.potential) {r : Fifo g × Bool} (hr : t.Lowers r) :
    r.1.potential < s.potential := by
  rcases hr with rfl | hlt'
  · exact hlt
  · exact hlt'.trans hlt

theorem Lowers.trans (h : s.Lowers (t, false)) {r : Fifo g × Bool} (hr : t.Lowers r) :
    s.Lowers r := by
  rcases h with heq | hlt
  · obtain rfl := (Prod.mk.inj heq).1
    exact hr
  · exact Or.inr (hr.after_lt hlt)

theorem Kept.lowers_raiseLabel (h : s.Kept start source sink busy) (v : g.Node) {label : Nat}
    (hle : label ≤ g.nodeCount) : s.Lowers (s.raiseLabel v label) := by
  unfold Fifo.raiseLabel
  split
  next hlt => exact Or.inr ((moved_setLabel h.tracks v label).potential_lt h hlt hle)
  next => exact Or.inl rfl

omit [Quantity K] in
theorem waiting_raiseLabel (h : s.gaps.Tracks s.labels) (v : g.Node) (label : Nat) :
    (s.raiseLabel v label).1.excess = s.excess ∧ (s.raiseLabel v label).1.queue = s.queue := by
  unfold raiseLabel
  split
  next =>
    have hmoved := moved_setLabel h v label
    exact ⟨hmoved.excess_eq, hmoved.queue_eq⟩
  next => exact ⟨rfl, rfl⟩

end Moves

/-- Every node in the queue has excess. -/
def Fed {K : Type} [Quantity K] {g : FlowGraph K} (s : Fifo g) : Prop :=
  ∀ u ∈ s.queue.toList, 0 < s.excess[u]

/-- A node that was taken from the queue has excess, as those that wait have. -/
structure Serving {K : Type} [Quantity K] {g : FlowGraph K} (v : g.Node) (s : Fifo g) : Prop where
  fed : s.Fed
  notMem : v ∉ s.queue.toList
  excess_pos : 0 < s.excess[v]

variable {K : Type} [AddCommGroup K] [LinearOrder K] {g : FlowGraph K}
  {giver source sink v : g.Node} {start : Preflow g} {s t : Fifo g}

theorem Fed.congr (h : s.Fed) (hexcess : t.excess = s.excess) (hqueue : t.queue = s.queue) :
    t.Fed := by
  intro u hu
  rw [hexcess]
  exact h u (hqueue ▸ hu)

theorem Serving.raiseLabel (h : s.Serving v) (htracks : s.gaps.Tracks s.labels) (label : Nat) :
    (s.raiseLabel v label).1.Serving v := by
  obtain ⟨hexcess, hqueue⟩ := waiting_raiseLabel htracks v label
  exact ⟨h.fed.congr hexcess hqueue, hqueue ▸ h.notMem, hexcess ▸ h.excess_pos⟩

theorem queue_send (s : Fifo g) (sink v : g.Node) (d : g.DartOf) {u : g.Node}
    (hu : u ∈ (s.send sink v d).queue.toList) :
    u ∈ s.queue.toList ∨ u = d.other ∧ d.other ≠ sink := by
  unfold send at hu
  dsimp only at hu
  split at hu
  next => exact Or.inl hu
  next hsink =>
    unfold enqueue at hu
    split at hu
    next => exact Or.inl hu
    next =>
      rw [Queue.toList_push, List.mem_append, List.mem_singleton] at hu
      exact hu.imp_right fun heq => ⟨heq, hsink⟩

variable [IsOrderedAddMonoid K]

/-- A node that receives something has excess. -/
theorem Serving.send (h : s.Serving v) {d : g.DartOf} (hne : d.other ≠ v)
    (hother : d.other ≠ sink → 0 ≤ s.excess[d.other]) (hresidual : 0 < g.residual s.flow d) :
    (s.send sink v d).Fed ∧ v ∉ (s.send sink v d).queue.toList := by
  have hamount : 0 < min s.excess[v] (g.residual s.flow d) := lt_min h.excess_pos hresidual
  refine ⟨fun u hu => ?_, fun hmem => ?_⟩
  · rw [toPreflow_send, Preflow.excess_send]
    rcases queue_send s sink v d hu with hold | ⟨rfl, hsink⟩
    · have huv : u ≠ v := fun heq => h.notMem (heq ▸ hold)
      rw [if_neg huv, sub_zero]
      refine add_pos_of_pos_of_nonneg (h.fed u hold) ?_
      split
      · exact hamount.le
      · exact le_rfl
    · rw [if_pos rfl, if_neg hne, sub_zero]
      exact add_pos_of_nonneg_of_pos (hother hsink) hamount
  · exact (queue_send s sink v d hmem).elim h.notMem fun heq => hne heq.1.symm

/-- Sending goes down one label. -/
theorem Sound.potential_send_lt (h : s.Sound start giver source sink) (hproper : g.Proper)
    (hsource : v ≠ source) {label : Nat} {d : g.DartOf} {cs : List (Nat × g.DartOf)}
    (hscanning : s.Scanning v ((label, d) :: cs)) (hlabel : label < s.labels[v])
    (hexcess : 0 < s.excess[v]) (hresidual : 0 < g.residual s.flow d) :
    (s.send sink v d).potential < s.potential := by
  have hd := hscanning.mem_darts _ List.mem_cons_self
  have hend : label = s.labels[d.other] := hscanning.label_eq _ List.mem_cons_self
  have hdown : s.labels[v] = s.labels[d.other] + 1 :=
    le_antisymm (h.validLabels.le_succ v hsource d hd hresidual) (hend ▸ hlabel)
  rw [toPreflow_send]
  exact Preflow.potential_send_lt hproper hd hdown hexcess hresidual

omit [IsOrderedAddMonoid K] in
/-- A receiver in the middle of a scan owes nothing, unless it is the sink. -/
theorem Amid.excess_other_nonneg {label : Nat} {d : g.DartOf} {cs : List (Nat × g.DartOf)}
    (h : s.Amid start giver source sink v ((label, d) :: cs))
    (hgiver : giver = source ∨ giver = sink) (hsink : d.other ≠ sink) :
    0 ≤ s.excess[d.other] := by
  refine h.sound.balanced.excess_nonneg _ fun heq => ?_
  rcases hgiver with rfl | rfl
  · exact h.other_ne_source heq
  · exact hsink heq

/-- What a scan does lowers the potential, if it does anything. -/
theorem Amid.lowers_scan {cs : List (Nat × g.DartOf)}
    (h : s.Amid start giver source sink v cs) (hserving : s.Serving v) (hproper : g.Proper)
    (hgiver : giver = source ∨ giver = sink) (hsource : v ≠ source) (hsink : v ≠ sink) :
    s.Lowers (Fifo.scan sink v cs s) ∧ (Fifo.scan sink v cs s).1.Fed := by
  induction cs generalizing s with
  | nil => exact ⟨Or.inl rfl, hserving.fed⟩
  | cons c cs ih =>
      rcases c with ⟨label, d⟩
      have hd := h.scanning.mem_darts _ List.mem_cons_self
      -- both a raise and what is sent down one label lower the potential
      have hlowers : s.Lowers (s.raiseLabel v (label + 1)) :=
        h.kept.lowers_raiseLabel v (h.scanning.label_lt _ List.mem_cons_self)
      have hserved := hserving.raiseLabel h.kept.tracks (label + 1)
      obtain ⟨-, hnext⟩ := h.raiseLabel hproper hsource hsink
      have hinner : v ≠ giver := by
        rintro rfl
        exact hgiver.elim hsource hsink
      unfold Fifo.scan
      dsimp only
      rcases hraise : s.raiseLabel v (label + 1) with ⟨r, retired⟩
      rw [hraise] at hlowers hserved hnext
      cases retired with
      | true => exact ⟨hlowers.elim (fun heq => by cases heq) Or.inr, hserved.fed⟩
      | false =>
          obtain ⟨hraised, habove⟩ := hnext rfl
          rw [if_neg Bool.false_ne_true]
          split
          next hdone =>
            obtain ⟨hrest, hfed⟩ := ih (hraised.tail hdone) hserved
            exact ⟨hlowers.trans hrest, hfed⟩
          next hopen =>
            have hresidual := not_le.mp hopen
            have hlt := hraised.sound.potential_send_lt hproper hsource hraised.scanning habove
              hserved.excess_pos hresidual
            obtain ⟨hsent, hsentv⟩ := hserved.send (hproper.other_ne hd)
              (hraised.excess_other_nonneg hgiver) hresidual
            obtain ⟨-, hamid⟩ := hraised.send hproper hinner hsource habove hresidual
            split
            next => exact ⟨hlowers.trans (Or.inr hlt), hsent⟩
            next hleft =>
              have hpos := not_le.mp hleft
              obtain ⟨hrest, hfed⟩ := ih (hamid hpos) ⟨hsent, hsentv, hpos⟩
              exact ⟨hlowers.trans (Or.inr (hrest.after_lt hlt)), hfed⟩

/-- A discharge of a node that has excess lowers the potential. -/
theorem potential_discharge_lt (hproper : g.Proper) (hsound : s.Sound start giver source sink)
    (hkept : s.Kept start source sink (some v)) (hgiver : giver = source ∨ giver = sink)
    (hsource : v ≠ source) (hsink : v ≠ sink) (hlabel : s.labels[v] < g.nodeCount)
    (hserving : s.Serving v) :
    (s.discharge sink v).potential < s.potential ∧ (s.discharge sink v).Fed := by
  have hamid : s.Amid start giver source sink v (s.candidates v) :=
    ⟨hsound, hkept, s.scanning_candidates v⟩
  obtain ⟨hlowers, hscanFed⟩ := hamid.lowers_scan hserving hproper hgiver hsource hsink
  obtain ⟨hscanned, -⟩ := hkept.scan_candidates hsource
  unfold Fifo.discharge
  dsimp only
  split
  next =>
    have hmoved := moved_setLabel hscanned.tracks v g.nodeCount
    refine ⟨?_, hscanFed.congr hmoved.excess_eq hmoved.queue_eq⟩
    rcases hlowers with heq | hlt
    -- nothing was done, so the node has not been retired yet
    · rw [heq] at hmoved hscanned ⊢
      exact hmoved.potential_lt hscanned hlabel le_rfl
    · refine (Preflow.potential_le_of_labels hmoved.flow_eq hmoved.excess_eq ?_ ?_).trans_lt hlt
      · exact hmoved.label_le (hscanned.le_nodeCount v) hscanned.le_nodeCount
      · exact hmoved.le_nodeCount le_rfl hscanned.le_nodeCount
  next hdone =>
    refine ⟨hlowers.resolve_left fun heq => hdone ?_, hscanFed⟩
    rw [heq]
    exact ⟨rfl, hserving.excess_pos⟩

/-! ## Steps -/

omit [IsOrderedAddMonoid K] in
theorem Fed.taken (h : s.Fed) (hnodup : s.queue.toList.Nodup) {queue : Queue g.Node}
    (hpop : s.queue.pop? = some (v, queue)) : (s.taken v queue).Serving v := by
  have hlist := Queue.toList_of_pop? hpop
  rw [hlist] at hnodup
  exact ⟨fun u hu => h u (hlist ▸ List.mem_cons_of_mem v hu), (List.nodup_cons.mp hnodup).1,
    h v (hlist ▸ List.mem_cons_self)⟩

omit [IsOrderedAddMonoid K] in
theorem Fed.relabel (h : s.Fed) (hkept : s.Kept start source sink none) (hne : source ≠ sink)
    {u : Unit} (hrelabel : relabel source sink s = .ok u t) : t.Fed := by
  obtain ⟨-, hexcess, -, -, hmem⟩ := relabel_eq_ok hne hkept.leavesAlone hkept.queues hrelabel
  intro v hv
  rcases (hmem v).mp hv with hold | hactive
  · rw [hexcess]
    exact h v hold
  · exact (Preflow.mem_active.mp hactive).2.2.1

/-- A node that waits and is not retired lowers the potential when its turn comes. -/
theorem Fed.discharge (h : s.Fed) (hproper : g.Proper) (hkept : s.Kept start source sink none)
    (hsound : s.Sound start giver source sink) (hgiver : giver = source ∨ giver = sink)
    {queue : Queue g.Node} (hpop : s.queue.pop? = some (v, queue))
    (hlabel : s.labels[v] < g.nodeCount) :
    (((s.taken v queue).discharge sink v).counted v).potential < s.potential ∧
      (((s.taken v queue).discharge sink v).counted v).Fed := by
  obtain ⟨hsource, hsink, htaken⟩ := hkept.taken hpop
  exact potential_discharge_lt hproper (s := s.taken v queue)
    ⟨hsound.balanced, hsound.validLabels⟩ htaken hgiver hsource hsink hlabel
    (h.taken hkept.queues.nodup hpop)

namespace Between

variable {threshold : Nat} {r : Fifo g}

theorem fed (h : Between threshold source sink s t) (hproper : g.Proper) (hne : source ≠ sink)
    (hgiver : giver = source ∨ giver = sink) (hfits : g.Fits s.flow)
    (hexcess : ∀ v : g.Node, v ≠ giver → 0 ≤ s.excess[v]) : t.Fed := by
  induction h with
  | started journal hrelabel =>
      obtain ⟨-, hsame, -, -, hmem⟩ :=
        relabel_eq_ok hne (Preflow.leavesAlone_refl _ source) (queues_cleared s) hrelabel
      intro v hv
      rcases (hmem v).mp hv with hnone | hactive
      · exact absurd hnone List.not_mem_nil
      · exact (Preflow.mem_active.mp hactive).2.2.1
  | passedOver ht hpop _ ih => exact (ih.taken (ht.kept hne).queues.nodup hpop).fed
  | discharged ht hpop hlabel ih =>
      exact (ih.discharge hproper (ht.kept hne) (ht.sound hproper hne hgiver hfits hexcess) hgiver
        hpop hlabel).2
  | relabelled ht _ hrelabel ih => exact ih.relabel (ht.kept hne) hne hrelabel

/-- A step lowers the potential, or keeps it and makes the queue shorter. -/
theorem lowers_step (h : Between threshold source sink s t) (hproper : g.Proper)
    (hne : source ≠ sink) (hgiver : giver = source ∨ giver = sink) (hfits : g.Fits s.flow)
    (hexcess : ∀ v : g.Node, v ≠ giver → 0 ≤ s.excess[v])
    (hstep : Fifo.step threshold source sink t = .ok true r) :
    toLex (r.potential, r.queue.toList.length) < toLex (t.potential, t.queue.toList.length) := by
  have hkept := h.kept hne
  have hsound := h.sound hproper hne hgiver hfits hexcess
  have hfed := h.fed hproper hne hgiver hfits hexcess
  rcases step_eq_ok hstep with ⟨hfalse, -⟩ | ⟨-, v, queue, hpop, ⟨-, rfl⟩ | ⟨hlabel, hcase⟩⟩
  · exact absurd hfalse (by simp)
  · refine Prod.Lex.toLex_lt_toLex.mpr (Or.inr ⟨rfl, ?_⟩)
    rw [Queue.toList_of_pop? hpop, List.length_cons]
    exact Nat.lt_succ_self _
  · obtain ⟨hlt, -⟩ := hfed.discharge hproper hkept hsound hgiver hpop hlabel
    refine Prod.Lex.toLex_lt_toLex.mpr (Or.inl ?_)
    rcases hcase with rfl | ⟨-, hrelabel⟩
    · exact hlt
    · have hdischarged := h.discharged hpop hlabel
      have hkept' := hdischarged.kept hne
      have hvalid := (hdischarged.sound hproper hne hgiver hfits hexcess).validLabels
      obtain ⟨hflow, hsame, hexact, -⟩ :=
        relabel_eq_ok hne hkept'.leavesAlone hkept'.queues hrelabel
      -- no valid labels are higher than exact ones
      have hle := hexact.label_le (hflow ▸ hvalid)
      exact (Preflow.potential_le_of_labels hflow hsame hle hexact.le_nodeCount).trans_lt hlt

end Between

end PushRelabel.Fifo
