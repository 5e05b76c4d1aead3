import PushRelabel.Proofs.Pass.Outcome

/-! # Excess does not go round in circles

Suppose rounds follow each other forever, deliver nothing and raise no label. The active nodes
with the lowest label then have nowhere to send what they have: they aim at the sentinel, stay
active because others send to them, and return what they are sent. A node that sends down to one
of them gets it back in the next round, behind it in the next but one, and must then find an
earlier dart that leads down. It has only finitely many darts.
-/

namespace PushRelabel.Rounds

open Round (wins not_wins_of_wins)

variable {K : Type} [AddCommGroup K] [LinearOrder K] {g : FlowGraph K}
  {giver source sink v w : g.Node} {start : Preflow g} {labels : Vector Nat g.nodeCount}
  {f : ℕ → Rounds g} {i j low : ℕ} {d e : g.DartOf}

/-- Rounds follow each other forever, deliver nothing, and raise no label. -/
structure Circles (start : Preflow g) (giver source sink : g.Node)
    (labels : Vector Nat g.nodeCount) (f : ℕ → Rounds g) : Prop where
  poised : ∀ i, (f i).Poised start giver source sink
  advances : ∀ i, (f i).Advances sink (f (i + 1))
  keeps : ∀ i, (f (i + 1)).excess[sink] = (f i).excess[sink]
  labels_eq : ∀ i, (f i).labels = labels

/-- A lower bound on the labels of all nodes that are ever active, all of which can be sent to. -/
structure Floor (labels : Vector Nat g.nodeCount) (f : ℕ → Rounds g) (low : ℕ) : Prop where
  low_le : ∀ i, ∀ v ∈ (f i).workingSet.toList, low ≤ labels[v]
  label_lt : ∀ i, ∀ v ∈ (f i).workingSet.toList, labels[v] + 1 < g.nodeCount

namespace Circles

theorem label_eq (h : Circles start giver source sink labels f) (i : ℕ) (v : g.Node) :
    (f i).labels[v] = labels[v] := by
  simp only [h.labels_eq i]

theorem shift (h : Circles start giver source sink labels f) :
    Circles start giver source sink labels fun i => f (i + 1) :=
  ⟨fun i => h.poised (i + 1), fun i => h.advances (i + 1), fun i => h.keeps (i + 1),
    fun i => h.labels_eq (i + 1)⟩

variable [IsOrderedAddMonoid K] (h : Circles start giver source sink labels f)
  (hproper : g.Proper)

include h hproper

theorem label_le (hsends : (f i).Sends sink v d) :
    labels[v] ≤ labels[d.other] + 1 ∧ labels[d.other] + 1 < g.nodeCount := by
  have hlabel := label_lt_of_sends hproper (h.poised i) hsends
  simpa only [h.label_eq] using hlabel

theorem wins_of_sends (hsends : (f i).Sends sink v d)
    (hother : d.other ∈ (f i).workingSet.toList) : wins labels v d.other :=
  h.labels_eq i ▸ Rounds.wins_of_sends hproper (h.poised i) hsends hother

/-- An active node stages its label, or it reaches the sentinel and is discovered. -/
theorem staged_eq (hv : v ∈ (f i).workingSet.toList) :
    ((f i).swept sink).staged[v] = labels[v] ∨
      ((f i).swept sink).staged[v] = g.nodeCount ∧
        ((f i).swept sink).discovered[v] = true := by
  have hsame : (f (i + 1)).labels[v] = (f i).labels[v] :=
    (h.label_eq _ v).trans (h.label_eq i v).symm
  have hstaged := staged_of_label_eq hproper (h.poised i) (h.advances i) hv hsame
  rwa [h.label_eq] at hstaged

/-- A node that is discovered is sent something. -/
theorem exists_sender_of_discovered (hfound : ((f i).swept sink).discovered[v] = true) :
    ∃ w d, (f i).Sends sink w d ∧ d.other = v := by
  rcases Round.found_by_sweep hproper (h.poised i).lineup ((h.poised i).not_discovered v) hfound
    with ⟨hv, hraised, hlt⟩ | hsender
  · have hlabel : (f i).opening.labels[v] = labels[v] := h.label_eq i v
    rw [hlabel] at hraised
    rcases h.staged_eq hproper hv with hstaged | ⟨hstaged, -⟩
    · exact absurd hstaged hraised.ne'
    · exact absurd hstaged hlt.ne
  · exact hsender

variable (hne : source ≠ sink)

include hne

theorem other_ne_sink (hsends : (f i).Sends sink v d) : d.other ≠ sink := fun heq =>
  (delivered_of_sends hproper (h.poised i) (h.advances i) hne hsends heq).ne' (h.keeps i)

theorem exists_sender (hv : v ∈ (f (i + 1)).workingSet.toList) :
    ∃ w d, (f i).Sends sink w d ∧ d.other = v := by
  obtain ⟨hsource, hsink, hactive⟩ :=
    Preflow.mem_active.mp (((h.poised (i + 1)).mem_iff v).mp hv)
  exact h.exists_sender_of_discovered hproper
    (discovered_of_isActive hproper (h.poised i) (h.advances i) hne hsource hsink hactive)

theorem label_lt (hv : v ∈ (f (i + 1)).workingSet.toList) : labels[v] + 1 < g.nodeCount := by
  obtain ⟨w, d, hsends, rfl⟩ := h.exists_sender hproper hne hv
  exact (h.label_le hproper hsends).2

variable (hgiver : giver = source ∨ giver = sink)

include hgiver

/-- A node that is sent something is active in the next round. -/
theorem mem_of_sends (hsends : (f i).Sends sink v d) :
    d.other ∈ (f (i + 1)).workingSet.toList := by
  have hsink := h.other_ne_sink hproper hne hsends
  have hlabel : (f (i + 1)).labels[d.other] < g.nodeCount := by
    rw [h.label_eq]
    exact (Nat.lt_succ_self _).trans (h.label_le hproper hsends).2
  exact ((h.poised (i + 1)).mem_iff _).mpr (Preflow.mem_active.mpr
    ⟨other_ne_source hproper (h.poised i) hsends, hsink,
      excess_pos_of_sends hproper (h.poised i) (h.advances i) hne hgiver hsends hsink, hlabel⟩)

/-! ## The lowest active nodes -/

variable (hfloor : Floor labels f low)

include hfloor

/-- Of the nodes with the lowest label, none can send down. -/
theorem staged_of_lowest (hv : v ∈ (f i).workingSet.toList) (hlow : labels[v] = low) :
    ((f i).swept sink).staged[v] = g.nodeCount ∧ ((f i).swept sink).discovered[v] = true := by
  rcases h.staged_eq hproper hv with hstaged | hstaged
  · have hrest : (Round.sweep sink (f i).workingSet.toList (f i).opening).staged[v] =
        (f i).opening.labels[v] := hstaged.trans (h.label_eq i v).symm
    obtain ⟨d, hsends, hdown⟩ := Round.sends_of_rest hproper (h.poised i).lineup hv hrest
    have hdown : (f i).labels[v] = (f i).labels[d.other] + 1 := hdown
    rw [h.label_eq, h.label_eq] at hdown
    have := hfloor.low_le (i + 1) _ (h.mem_of_sends hproper hne hgiver hsends)
    omega
  · exact hstaged

/-- The nodes with the lowest label stay active, and others send to them. -/
theorem stays (hv : v ∈ (f i).workingSet.toList) (hlow : labels[v] = low) :
    v ∈ (f (i + 1)).workingSet.toList ∧ ∃ w d, (f i).Sends sink w d ∧ d.other = v := by
  obtain ⟨-, hfound⟩ := h.staged_of_lowest hproper hne hgiver hfloor hv hlow
  obtain ⟨w, d, hsends, rfl⟩ := h.exists_sender_of_discovered hproper hfound
  exact ⟨h.mem_of_sends hproper hne hgiver hsends, w, d, hsends, rfl⟩

/-- A node with the lowest label uses every dart that it finds open. -/
theorem sends_of_lowest (hv : v ∈ (f i).workingSet.toList) (hlow : labels[v] = low)
    (he : e ∈ g.darts v) (hother : e.other ∈ (f j).workingSet.toList)
    (hopen : 0 < g.residual
      (Round.eve sink (f i).workingSet.toList (f i).opening v).flow e) :
    (f i).Sends sink v e := by
  obtain ⟨hstaged, -⟩ := h.staged_of_lowest hproper hne hgiver hfloor hv hlow
  have hlabels : ∀ u : g.Node, (f i).opening.labels[u] = labels[u] := h.label_eq i
  refine Round.sends_of_saturated hproper (h.poised i).lineup hv hstaged he hopen ?_ ?_
  · rw [hlabels, hlabels, hlow]
    exact (hfloor.low_le j _ hother).trans (Nat.le_succ _)
  · rw [hlabels]
    exact hfloor.label_lt j _ hother

/-- A node with the lowest label has its turn before those that send to it in the same round:
otherwise it would send back what it got, but only one of two active nodes may send to the
other. -/
theorem precedes_of_sends (hsends : (f i).Sends sink w d)
    (hother : d.other ∈ (f i).workingSet.toList) (hlow : labels[d.other] = low) :
    Precedes (f i).workingSet.toList d.other w := by
  have hdarts := hsends.mem_darts
  rcases precedes_or_precedes hother (hproper.other_ne hdarts) with hbefore | hbehind
  · exact hbefore
  · obtain ⟨e, he, rfl, harc, hreversed⟩ := g.exists_opposite hdarts
    have hlineup := (h.poised i).lineup
    have hopen := (Round.Sends.opposite hproper hlineup hsends (h.poised i).balanced.fits harc
      hreversed).trans_le ((Round.spared_between sink hproper hlineup hbehind
        (Or.inr rfl)).residual_le e he)
    have hback := h.sends_of_lowest hproper hne hgiver hfloor hother hlow he hsends.mem hopen
    exact absurd (h.wins_of_sends hproper hback hsends.mem)
      (not_wins_of_wins (h.wins_of_sends hproper hsends hother))

/-- A node with the lowest label returns in the next round what it was sent. -/
theorem returns (hsends : (f i).Sends sink w d) (hlow : labels[d.other] = low) :
    ∃ e, (f (i + 1)).Sends sink d.other e ∧ e.other = w ∧ e.arc = d.arc ∧
      e.reversed = !d.reversed := by
  obtain ⟨e, he, rfl, harc, hreversed⟩ := g.exists_opposite hsends.mem_darts
  have hother : d.other ∉ (f i).workingSet.toList ∨
      Precedes (f i).workingSet.toList d.other e.other := by
    by_cases hmem : d.other ∈ (f i).workingSet.toList
    · exact Or.inr (h.precedes_of_sends hproper hne hgiver hfloor hsends hmem hlow)
    · exact Or.inl hmem
  have hopen := residual_pos_of_sends hproper (h.poised i) (h.advances i) hsends hother he harc
    hreversed
  have heve := hopen.trans_le
    ((Round.spared_eve sink hproper (h.poised (i + 1)).lineup d.other).residual_le e he)
  exact ⟨e, h.sends_of_lowest hproper hne hgiver hfloor (h.mem_of_sends hproper hne hgiver hsends)
    hlow he hsends.mem heve, rfl, harc, hreversed⟩

/-- What a node with the lowest label is sent while it is active comes from one label up. -/
theorem label_of_sends (hsends : (f i).Sends sink w d)
    (hother : d.other ∈ (f i).workingSet.toList) (hlow : labels[d.other] = low) :
    labels[w] = low + 1 := by
  have hle := (h.label_le hproper hsends).1
  have hge := hfloor.low_le i w hsends.mem
  by_contra hlabel
  -- a sender that is as low stays active as well, and each of the two would win
  obtain ⟨hmem, -⟩ := h.stays hproper hne hgiver hfloor hsends.mem (by omega)
  obtain ⟨e, hback, rfl, -⟩ := h.returns hproper hne hgiver hfloor hsends hlow
  exact not_wins_of_wins (h.wins_of_sends hproper hback hmem)
    (h.wins_of_sends hproper hsends hother)

/-- A node that is sent something by a node with the lowest label has its turn before that one in
the next round. -/
theorem not_precedes_of_returned (hsends : (f i).Sends sink v e) (hlow : labels[v] = low) :
    ¬ Precedes (f (i + 1)).workingSet.toList v e.other := by
  have hlineup := (h.poised i).lineup
  obtain ⟨as, bs, hlist, has⟩ := exists_split hproper (h.poised i) (h.advances i) hsends.mem
  have hmem := h.mem_of_sends hproper hne hgiver hsends
  have hactive := (Preflow.mem_active.mp (((h.poised (i + 1)).mem_iff _).mp hmem)).2.2
  have hfound := (Round.Sends.sent hproper hlineup hsends).2.2.2.2
    (h.other_ne_sink hproper hne hsends)
  have hnot := Round.not_discovered_after hproper hlineup hsends.mem
    ((h.poised i).not_discovered v)
    (h.staged_of_lowest hproper hne hgiver hfloor hsends.mem hlow).1
    (by
      rintro w d hother rfl
      exact h.precedes_of_sends hproper hne hgiver hfloor hother hsends.mem hlow)
  rw [hlist]
  exact not_precedes_append _ _ ((has _).mpr ⟨hfound, hactive⟩) fun hearlier =>
    hnot ((has v).mp hearlier).1

/-- After sending down to the lowest label a node rests, gets back what it sent, and next sends
down along an earlier dart. -/
theorem exists_earlier (hsends : (f i).Sends sink w d) (hlow : labels[d.other] = low)
    (hlabel : labels[w] = low + 1) {as bs : List g.DartOf} (hdarts : g.darts w = as ++ d :: bs) :
    ∃ e ∈ as, (f (i + 2)).Sends sink w e ∧ labels[e.other] = low := by
  obtain ⟨e, hback, rfl, harc, hreversed⟩ := h.returns hproper hne hgiver hfloor hsends hlow
  have hrests : e.other ∉ (f (i + 1)).workingSet.toList := fun hmem =>
    not_wins_of_wins (h.wins_of_sends hproper hback hmem) (Or.inl (by rw [hlabel, hlow]))
  have hmem := h.mem_of_sends hproper hne hgiver hback
  have hbehind := h.not_precedes_of_returned hproper hne hgiver hfloor hback hlow
  have hopen : 0 < g.residual (f (i + 2)).flow d :=
    residual_pos_of_sends hproper (h.poised (i + 1)) (h.advances (i + 1)) hback (Or.inl hrests)
      hsends.mem_darts harc.symm (by rw [hreversed, Bool.not_not])
  have hlineup := (h.poised (i + 2)).lineup
  have heve := hopen.trans_le
    ((Round.spared_eve sink hproper hlineup e.other).residual_le d hsends.mem_darts)
  have hlabels : ∀ u : g.Node, (f (i + 2)).opening.labels[u] = labels[u] := h.label_eq (i + 2)
  have hdown : (f (i + 2)).opening.labels[e.other] =
      (f (i + 2)).opening.labels[d.other] + 1 := by
    rw [hlabels, hlabels, hlow, hlabel]
  obtain ⟨c, hc, hagain, hexact⟩ := Round.sends_of_down hproper hlineup hmem hdarts hdown heve
  have hother : labels[c.other] = low := by
    rw [hlabels, hlabels, hlabel] at hexact
    omega
  -- if it were the same dart, its other end would have its turn first, which it does not
  rcases List.mem_append.mp hc with hearlier | hlast
  · exact ⟨c, hearlier, hagain, hother⟩
  · obtain rfl := List.mem_singleton.mp hlast
    refine absurd (h.precedes_of_sends hproper hne hgiver hfloor hagain ?_ hother) hbehind
    exact (h.stays hproper hne hgiver hfloor hback.mem hother).1

theorem not_sends (hsends : (f i).Sends sink w d) (hlow : labels[d.other] = low)
    (hlabel : labels[w] = low + 1) {as bs : List g.DartOf} (hdarts : g.darts w = as ++ d :: bs) :
    False := by
  -- the darts that are used come ever earlier in the row of the node
  induction hlength : as.length using Nat.strong_induction_on generalizing i d as bs with
  | _ length ih =>
      obtain ⟨e, he, hearlier, hother⟩ :=
        h.exists_earlier hproper hne hgiver hfloor hsends hlow hlabel hdarts
      obtain ⟨as', bs', rfl⟩ := List.append_of_mem he
      rw [List.append_assoc, List.cons_append] at hdarts
      refine ih as'.length ?_ hearlier hother hdarts rfl
      rw [← hlength, List.length_append, List.length_cons]
      omega

theorem label_ne_low (hv : v ∈ (f i).workingSet.toList) : labels[v] ≠ low := by
  intro hlow
  obtain ⟨-, w, d, hsends, rfl⟩ := h.stays hproper hne hgiver hfloor hv hlow
  obtain ⟨as, bs, hdarts⟩ := List.append_of_mem hsends.mem_darts
  exact h.not_sends hproper hne hgiver hfloor hsends hlow
    (h.label_of_sends hproper hne hgiver hfloor hsends hv hlow) hdarts

omit hfloor in
/-- Without active nodes nothing circles. -/
theorem toList_eq_nil (i : ℕ) : (f (i + 1)).workingSet.toList = [] := by
  by_contra hactive
  obtain ⟨v, hv⟩ := List.exists_mem_of_ne_nil _ hactive
  let Occurs (label : ℕ) : Prop := ∃ i, ∃ v ∈ (f (i + 1)).workingSet.toList, labels[v] = label
  classical
  have hoccurs : ∃ label, Occurs label := ⟨_, i, v, hv, rfl⟩
  have hfloor : Floor labels (fun i => f (i + 1)) (Nat.find hoccurs) :=
    ⟨fun j u hu => Nat.find_min' hoccurs ⟨j, u, hu, rfl⟩, fun j u hu => h.label_lt hproper hne hu⟩
  obtain ⟨j, u, hu, hlow⟩ := Nat.find_spec hoccurs
  exact h.shift.label_ne_low hproper hne hgiver hfloor hu hlow

end Circles

end PushRelabel.Rounds
