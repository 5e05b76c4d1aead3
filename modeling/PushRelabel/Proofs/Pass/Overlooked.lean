import PushRelabel.Proofs.Pass.Bookkeeping
import PushRelabel.Proofs.Pass.LabelRange
import PushRelabel.Proofs.Pass.Outcome

/-! # Darts that a round overlooks

In a round a node looks at its darts in its turn only, so it may miss that others send to it. Of
its darts that admit flow after the round, it has missed only those along which the other end has
sent something, and only if the node itself has changed its label, or the sender was denied the
label to which it had climbed. All others descend by at most one label, if they did so before the
round.
-/

namespace PushRelabel

variable {K : Type} [AddCommGroup K] [LinearOrder K] [IsOrderedAddMonoid K] {g : FlowGraph K}
  {u v : g.Node} {d e : g.DartOf}

namespace Round

variable {source sink : g.Node} {vs : List g.Node} {r : Round g}

section Turns

variable (hproper : g.Proper) (h : r.Lineup vs)

include hproper h

/-- A node stages the label to which it climbs in its turn. -/
theorem climb_of_mem (hv : v ∈ vs) :
    (after sink vs r v).flow =
        (climb sink v r.labels[v] r.excess[v] (eve sink vs r v)).1.flow ∧
      (sweep sink vs r).staged[v] =
        (climb sink v r.labels[v] r.excess[v] (eve sink vs r v)).2.2 := by
  have huntouched := (spared_eve sink hproper h v).untouched
  have hexcess : 0 ≤ (eve sink vs r v).excess[v] := by
    simpa [huntouched.excess_eq] using (h.active v hv).1.le
  have hfinish := finish_discharge sink v (eve sink vs r v) hexcess
  have hrest := spared_rest sink hproper h hv (Or.inl rfl)
  rw [huntouched.excess_eq, huntouched.labels_eq] at hfinish
  refine ⟨hfinish.flow_eq, hrest.staged_eq.trans ?_⟩
  rw [after, hfinish.staged_eq, Vector.getElem_put, if_pos rfl]

/-- A node that sends to another one stages a label above it. -/
theorem Sends.lt_staged (hsends : Sends sink vs r v d) :
    r.labels[d.other] < (sweep sink vs r).staged[v] := by
  obtain ⟨hflow, hstaged⟩ := climb_of_mem hproper h hsends.mem
  have hlabels := labels_eve sink hproper h v
  have hlt := hsends.residual_lt
  rw [hflow] at hlt
  have hclimbed :=
    lt_label_climb_of_lt hproper sink v _ _ (h.active v hsends.mem).2 hsends.mem_darts hlt
  rw [hlabels] at hclimbed
  rw [hstaged]
  exact hclimbed

/-- A dart that is still open after the turn of its node bounds the label that the node stages. -/
theorem staged_le_of_open (hv : v ∈ vs) (hd : d ∈ g.darts v)
    (hopen : 0 < g.residual (after sink vs r v).flow d)
    (hle : r.labels[v] ≤ r.labels[d.other] + 1) :
    (sweep sink vs r).staged[v] ≤ r.labels[d.other] + 1 := by
  obtain ⟨hflow, hstaged⟩ := climb_of_mem hproper h hv
  have hlabels := labels_eve sink hproper h v
  rw [hflow] at hopen
  rw [hstaged]
  have hbound := label_climb_le_of_open hproper sink v _ _ (h.active v hv).2 hd hopen
  rw [hlabels] at hbound
  exact hbound hle

section Unused

variable (hd : d ∈ g.darts v) (hnot : ¬ Sends sink vs r v d)

include hd hnot

theorem residual_eve_le_sweep (hv : v ∈ vs) :
    g.residual (eve sink vs r v).flow d ≤ g.residual (sweep sink vs r).flow d := by
  have hturn : g.residual (eve sink vs r v).flow d ≤ g.residual (after sink vs r v).flow d :=
    not_lt.mp fun hlt => hnot ⟨hv, hd, hlt⟩
  exact hturn.trans ((spared_rest sink hproper h hv (Or.inl rfl)).residual_le d hd)

/-- A dart along which its node does not send admits no less after the round than before. -/
theorem residual_le_sweep :
    g.residual r.flow d ≤ g.residual (sweep sink vs r).flow d := by
  by_cases hv : v ∈ vs
  · apply ((spared_eve sink hproper h v).residual_le d hd).trans
    exact residual_eve_le_sweep hproper h hd hnot hv
  · exact (spared_sweep sink hproper h hv).residual_le d hd

/-- A dart along which its node does not send admits no less after the round than after the turn
of another node. -/
theorem residual_after_le_sweep (hu : u ∈ vs) (hne : v ≠ u) :
    g.residual (after sink vs r u).flow d ≤ g.residual (sweep sink vs r).flow d := by
  by_cases hv : v ∈ vs
  · rcases precedes_or_precedes hv hne with hbefore | hbehind
    · exact (spared_rest sink hproper h hu (Or.inr (Or.inr hbefore))).residual_le d hd
    · apply ((spared_between sink hproper h hbehind (Or.inr rfl)).residual_le d hd).trans
      exact residual_eve_le_sweep hproper h hd hnot hv
  · exact (spared_rest sink hproper h hu (Or.inr (Or.inl hv))).residual_le d hd

end Unused

end Turns

end Round

namespace Rounds

variable {giver source sink : g.Node} {start : Preflow g} {s t : Rounds g}
  {excused : Set g.DartOf}

/-- The label that a node has after the next round, unless a gap retires it. -/
def due (sink : g.Node) (s : Rounds g) (v : g.Node) : Nat :=
  if v ∈ s.workingSet.toList then (s.swept sink).nextLabel v else s.labels[v]

/-- The darts that the next round overlooks. From its other end something is sent along the dart,
but the node at this end leaves its label in the round, or the sender does not get the label to
which it climbed. -/
def overlooked (sink : g.Node) (s : Rounds g) : Set g.DartOf :=
  {d | ∃ v e, s.Sends sink v e ∧ d.arc = e.arc ∧ d.reversed = !e.reversed ∧
    (s.due sink e.other ≠ s.labels[e.other] ∨ s.due sink v ≠ (s.swept sink).staged[v])}

section Round

variable (hproper : g.Proper) (h : s.Poised start giver source sink)

include hproper h

theorem due_le (v : g.Node) : s.due sink v ≤ g.nodeCount := by
  unfold due
  split
  next hv =>
    apply Round.nextLabel_le _ (staged_bounds hproper h hv).2
    simpa [labels_swept] using h.label_le v
  next => exact h.label_le v

theorem le_due (v : g.Node) : s.labels[v] ≤ s.due sink v := by
  unfold due
  split
  next hv =>
    simpa [labels_swept] using Round.le_nextLabel (staged_bounds hproper h hv).1
  next => exact le_rfl

/-- A dart of a node that the other end does not use bounds the label of the node, as it did
before the round. -/
theorem due_le_of_not_sends (hd : d ∈ g.darts u)
    (hopen : 0 < g.residual (s.swept sink).flow d)
    (hstart : 0 < g.residual s.flow d → s.labels[u] ≤ s.labels[d.other] + 1)
    (he : e ∈ g.darts d.other) (harc : e.arc = d.arc) (hreversed : e.reversed = !d.reversed)
    (hnot : ¬ s.Sends sink d.other e) : s.due sink u ≤ s.labels[d.other] + 1 := by
  have hless := FlowGraph.residual_le_of_opposite harc hreversed
    (Round.residual_le_sweep hproper h.lineup he hnot)
  have hle := hstart (hopen.trans_le hless)
  unfold due
  split
  next hu =>
    have hafter := FlowGraph.residual_le_of_opposite harc hreversed
      (Round.residual_after_le_sweep hproper h.lineup he hnot hu (hproper.other_ne hd))
    have hstaged := Round.staged_le_of_open hproper h.lineup hu hd (hopen.trans_le hafter) hle
    rcases (s.swept sink).nextLabel_eq_or u with heq | heq
    · simpa [heq, labels_swept] using hle
    · rw [heq]
      exact hstaged
  next => exact hle

/-- A dart that is not overlooked descends by at most one label after the round, if it did so
before. -/
theorem due_le_succ (hd : d ∈ g.darts u) (hseen : d ∉ s.overlooked sink)
    (hopen : 0 < g.residual (s.swept sink).flow d)
    (hstart : 0 < g.residual s.flow d → s.labels[u] ≤ s.labels[d.other] + 1) :
    s.due sink u ≤ s.due sink d.other + 1 := by
  obtain ⟨e, he, rfl, harc, hreversed⟩ := g.exists_opposite hd
  by_cases hsends : s.Sends sink d.other e
  · -- the sender is above the node, and both labels are as they seemed to be
    have hlt := Round.Sends.lt_staged hproper h.lineup hsends
    have hlabels : ¬ (s.due sink e.other ≠ s.labels[e.other] ∨
        s.due sink d.other ≠ (s.swept sink).staged[d.other]) := fun hnew =>
      hseen ⟨d.other, e, hsends, harc.symm, by rw [hreversed, Bool.not_not], hnew⟩
    simp only [not_or, not_not] at hlabels
    rw [hlabels.1, hlabels.2]
    exact hlt.le.trans (Nat.le_succ _)
  · have hle := due_le_of_not_sends hproper h hd hopen hstart he harc hreversed hsends
    exact hle.trans (Nat.add_le_add_right (le_due hproper h d.other) 1)

variable {u : Unit}

/-- A round whose labels are committed leaves them valid, except for the darts that it
overlooks. -/
theorem validExcept_discharge (hvalid : g.ValidExcept excused s.flow s.labels source sink)
    (hdischarge : discharge sink s = .ok u t) :
    g.ValidExcept (excused ∪ s.overlooked sink) t.flow t.labels source sink := by
  obtain ⟨hround, -⟩ := discharge_eq_ok h.kept.lists.cursor_eq hdischarge
  have hflow : t.flow = (s.swept sink).flow := by
    rw [hround]
    exact (Round.SameHeld.foldl (fun r v => Round.sameHeld_commit r v) _ _).flow_eq
  have hlabels : ∀ v : g.Node, t.labels[v] = s.due sink v := by
    intro v
    simp [hround, Round.labels_foldl_commit h.kept.nodup, labels_swept, due]
  have hinner : ∀ v, v ∉ s.workingSet.toList → t.labels[v] = s.labels[v] := by
    intro v hv
    rw [hlabels, due, if_neg hv]
  refine ⟨?_, ?_, fun v => ?_, fun u hu d hd hseen hopen => ?_⟩
  · rw [hinner sink fun hmem => (h.kept.inner sink hmem).2 rfl]
    exact hvalid.sink_eq
  · rw [hinner source fun hmem => (h.kept.inner source hmem).1 rfl]
    exact hvalid.source_eq
  · rw [hlabels]
    exact due_le hproper h v
  · rw [Set.mem_union, not_or] at hseen
    rw [hflow] at hopen
    rw [hlabels, hlabels]
    exact due_le_succ hproper h hd hseen.2 hopen (hvalid.le_succ u hu d hd hseen.1)

end Round

end Rounds

end PushRelabel
