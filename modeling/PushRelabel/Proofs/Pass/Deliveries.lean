import PushRelabel.Proofs.Pass.Outcome

/-! # Excess drains into the sink

As long as some active node is below a level, and every node below that level can send to a node
one label down, something flows further down in each round. The lowest active node gives to a
node below it, and the labels there are not touched. So the sink is reached, after fewer rounds
than there are labels; and a round that delivers nothing is not followed by exact labels with
active nodes for long.
-/

namespace PushRelabel

variable {K : Type} [AddCommGroup K] [LinearOrder K] [IsOrderedAddMonoid K] {g : FlowGraph K}
  {giver source sink : g.Node}

/-- No more can have arrived at a node than its arcs can carry. -/
theorem Preflow.Balanced.excess_le {start p : Preflow g} (h : start.Balanced giver p)
    (v : g.Node) :
    p.excess[v] ≤ start.excess[v] - g.netInflow start.flow v + g.cutCapacity {v}ᶜ := by
  have hcut := h.fits.sum_compl_netInflow_le {v}ᶜ
  rw [compl_compl, Finset.sum_singleton] at hcut
  rw [← h.excess_sub, sub_add]
  exact le_sub_self_iff _ |>.mpr (sub_nonpos.mpr hcut)

namespace Rounds

variable {start : Preflow g} {s t : Rounds g} {level threshold : Nat}

/-- Some active node is below a level, and every node below the level can send to a node one
label down. -/
structure Drains (sink : g.Node) (level : Nat) (s : Rounds g) : Prop where
  level_le : level ≤ g.nodeCount
  descends : g.Descends s.flow s.labels sink level
  exists_below : ∃ v ∈ s.workingSet.toList, s.labels[v] < level

omit [IsOrderedAddMonoid K] in
theorem drains_of_relabel (hne : source ≠ sink) (hrelabel : relabel source sink s = .ok () t)
    (hactive : t.workingSet.toList ≠ []) : t.Drains sink g.nodeCount := by
  obtain ⟨⟨-, -, hexact⟩, -, hlists, -⟩ := relabel_eq_ok hne hrelabel
  obtain ⟨v, hv⟩ := List.exists_mem_of_ne_nil _ hactive
  refine ⟨le_rfl, hexact.descends, v, hv, ?_⟩
  rw [hlists.toList_eq] at hv
  exact (Preflow.mem_active.mp hv).2.2.2

namespace Drains

omit [IsOrderedAddMonoid K] in
/-- Exact labels are not higher where labels descend. -/
theorem relabel (h : s.Drains sink level) (hs : s.Poised start giver source sink)
    (hne : source ≠ sink) (hrelabel : Rounds.relabel source sink s = .ok () t) :
    t.Drains sink level := by
  obtain ⟨⟨hflow, hexcess, hexact⟩, -, hlists, -⟩ := relabel_eq_ok hne hrelabel
  obtain ⟨v, hv, hbelow⟩ := h.exists_below
  have hlabel : t.labels[v] ≤ s.labels[v] := by
    refine hexact.toValidLabels.le_of_descends ?_ (h.level_le.trans hs.kept.idle.source_eq.ge)
      hbelow
    rw [hflow]
    exact h.descends
  obtain ⟨hsource, hsink, hpos, -⟩ := Preflow.mem_active.mp ((hs.mem_iff v).mp hv)
  refine ⟨h.level_le, hexact.descends.mono h.level_le, v, ?_, hlabel.trans_lt hbelow⟩
  rw [hlists.toList_eq]
  refine Preflow.mem_active.mpr ⟨hsource, hsink, ?_, hlabel.trans_lt (hbelow.trans_le h.level_le)⟩
  rwa [hexcess]

/-- The lowest active node sends to the sink or to a node below it, which is active then. -/
theorem round (h : s.Drains sink level) (hs : s.Poised start giver source sink)
    (hproper : g.Proper) (hne : source ≠ sink) (hgiver : giver = source ∨ giver = sink)
    (hadvances : s.Advances sink t) (hkeeps : t.excess[sink] = s.excess[sink]) :
    ∃ lower < level, t.Drains sink lower := by
  obtain ⟨v, hv, hbelow⟩ := h.exists_below
  obtain ⟨w, hw, hleast⟩ := s.workingSet.toList.toFinset.exists_min_image (fun u => s.labels[u])
    ⟨v, List.mem_toFinset.mpr hv⟩
  have hw : w ∈ s.workingSet.toList := List.mem_toFinset.mp hw
  have hleast : ∀ u ∈ s.workingSet.toList, s.labels[w] ≤ s.labels[u] :=
    fun u hu => hleast u (List.mem_toFinset.mpr hu)
  have hlt : s.labels[w] < level := (hleast v hv).trans_lt hbelow
  have hsame : ∀ u : g.Node, s.labels[u] < s.labels[w] → t.labels[u] = s.labels[u] :=
    fun u hu => label_eq_advances hs hadvances hleast hu
  refine ⟨s.labels[w], hlt, hlt.le.trans h.level_le, fun u hu hlow => ?_, ?_⟩
  · -- a node below all active ones keeps its label and can still send what it could
    have hlow : s.labels[u] < s.labels[w] :=
      (label_le_advances hproper hs hadvances u).trans_lt hlow
    obtain ⟨d, hd, hresidual, hdown⟩ := h.descends u hu (hlow.trans hlt)
    have hrests : u ∉ s.workingSet.toList := fun hmem => (hleast u hmem).not_gt hlow
    refine ⟨d, hd, hresidual.trans_le (residual_le_advances hproper hs hadvances hrests hd), ?_⟩
    rw [hsame u hlow, hsame d.other (by omega)]
    exact hdown
  · -- the lowest active node has sent along a dart that leads down, to a node that is active now
    obtain ⟨-, hsink, -⟩ := Preflow.mem_active.mp ((hs.mem_iff w).mp hw)
    obtain ⟨d, hd, hresidual, hdown⟩ := h.descends w hsink hlt
    obtain ⟨as, bs, hdarts⟩ := List.append_of_mem hd
    have hopen := hresidual.trans_le ((Round.spared_eve sink hproper hs.lineup w).residual_le d hd)
    obtain ⟨e, -, hsends, hexact⟩ :=
      Round.sends_of_down hproper hs.lineup hw hdarts hdown.symm hopen
    have hsends : s.Sends sink w e := hsends
    have hexact : s.labels[w] = s.labels[e.other] + 1 := hexact
    have hother : e.other ≠ sink := fun heq =>
      (delivered_of_sends hproper hs hadvances hne hsends heq).ne' hkeeps
    have hlabel := hsame e.other (by omega)
    have hactive : e.other ∈ t.active source sink :=
      Preflow.mem_active.mpr ⟨other_ne_source hproper hs hsends, hother,
        excess_pos_of_sends hproper hs hadvances hne hgiver hsends hother,
        hlabel.trans_lt ((Nat.lt_succ_self _).trans (label_lt_of_sends hproper hs hsends).2)⟩
    exact ⟨e.other, ((poised_round hproper hs hadvances hne).mem_iff _).mpr hactive, by omega⟩

end Drains

/-! ## Steps -/

/-- What a step does that does not end the pass: it recomputes the labels, runs a round, or
does both. -/
inductive Moves (source sink : g.Node) (s : Rounds g) : Rounds g → Prop
  | relabels {t : Rounds g} (journal : Journal K) (hempty : s.workingSet.toList = [])
      (hrelabel : relabel source sink s = .ok () t) :
      Moves source sink s { t with journal := journal }
  | advances {t : Rounds g} (hactive : s.workingSet.toList ≠ []) (hadvances : s.Advances sink t) :
      Moves source sink s t
  | restarts {t q : Rounds g} (hactive : s.workingSet.toList ≠ [])
      (hadvances : s.Advances sink q) (hrelabel : relabel source sink q = .ok () t) :
      Moves source sink s t

section Moves

variable (h : s.Poised start giver source sink)

include h

omit [IsOrderedAddMonoid K] in
theorem moves_of_step (hstep : step threshold source sink s = .ok true t) :
    Moves source sink s t ∧ ¬ (s.exact = true ∧ s.workingSet.toList = []) := by
  have hempty := h.kept.lists.isEmpty_iff
  rcases step_eq_ok hstep with ⟨hfalse, -⟩ |
    ⟨-, ⟨hnil, hexact, q, journal, hrelabel, -, rfl⟩ | ⟨hfull, p, q, hdischarge, hrenew, hend⟩⟩
  · cases hfalse
  · exact ⟨.relabels journal (hempty.mp hnil) hrelabel,
      fun hboth => Bool.false_ne_true (hexact.symm.trans hboth.1)⟩
  · have hactive : s.workingSet.toList ≠ [] := fun hnil =>
      Bool.false_ne_true (hfull.symm.trans (hempty.mpr hnil))
    refine ⟨?_, fun hboth => hactive hboth.2⟩
    rcases hend with rfl | ⟨-, hrelabel⟩
    · exact .advances hactive ⟨p, hdischarge, hrenew⟩
    · exact .restarts hactive ⟨p, hdischarge, hrenew⟩ hrelabel

variable (hproper : g.Proper) (hne : source ≠ sink)

include hproper hne

/-- Steps take nothing back from the sink. -/
theorem Moves.delivered_le (hmoves : Moves source sink s t) : s.excess[sink] ≤ t.excess[sink] := by
  cases hmoves with
  | relabels journal _ hrelabel => rw [(relabel_eq_ok hne hrelabel).1.2.1]
  | advances _ hadvances => exact Rounds.delivered_le hproper h hadvances hne
  | restarts _ hadvances hrelabel =>
      rw [(relabel_eq_ok hne hrelabel).1.2.1]
      exact Rounds.delivered_le hproper h hadvances hne

variable (hgiver : giver = source ∨ giver = sink) (hkeeps : t.excess[sink] = s.excess[sink])

include hgiver hkeeps

theorem Drains.moves (hdrains : s.Drains sink level) (hmoves : Moves source sink s t) :
    ∃ lower < level, t.Drains sink lower := by
  cases hmoves with
  | relabels journal hempty _ =>
      obtain ⟨v, hv, -⟩ := hdrains.exists_below
      rw [hempty] at hv
      exact absurd hv List.not_mem_nil
  | advances _ hadvances => exact hdrains.round h hproper hne hgiver hadvances hkeeps
  | restarts _ hadvances hrelabel =>
      rw [(relabel_eq_ok hne hrelabel).1.2.1] at hkeeps
      obtain ⟨lower, hlt, hlower⟩ := hdrains.round h hproper hne hgiver hadvances hkeeps
      exact ⟨lower, hlt, hlower.relabel (poised_round hproper h hadvances hne) hne hrelabel⟩

omit [IsOrderedAddMonoid K] h hproper hgiver hkeeps in
/-- A step runs a round and leaves it at that, unless the labels are exact after it. -/
theorem Moves.advances_or (hmoves : Moves source sink s t) :
    s.workingSet.toList ≠ [] ∧ s.Advances sink t ∨
      t.exact = true ∧ t.workingSet.toList = [] ∨ t.Drains sink g.nodeCount := by
  have hrelabelled : ∀ {q r : Rounds g}, relabel source sink q = .ok () r →
      r.exact = true ∧ r.workingSet.toList = [] ∨ r.Drains sink g.nodeCount := by
    intro q r hrelabel
    by_cases hnil : r.workingSet.toList = []
    · exact Or.inl ⟨(relabel_eq_ok hne hrelabel).2.2.2.1, hnil⟩
    · exact Or.inr (drains_of_relabel hne hrelabel hnil)
  cases hmoves with
  | relabels journal _ hrelabel =>
      refine Or.inr ((hrelabelled hrelabel).imp_right fun hdrains => ?_)
      exact ⟨hdrains.level_le, hdrains.descends, hdrains.exists_below⟩
  | advances hactive hadvances => exact Or.inl ⟨hactive, hadvances⟩
  | restarts _ _ hrelabel => exact Or.inr (hrelabelled hrelabel)

end Moves

end Rounds

end PushRelabel
