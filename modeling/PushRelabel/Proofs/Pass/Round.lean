import PushRelabel.Pass.Round
import PushRelabel.Proofs.Preflow

/-! # What a round keeps

While a round runs, the excess of a node is in two places: what it had when the round
started, and what was added since. Both together behave like the excess of a preflow
that sends along one dart after the other, and settling a node does not change their
sum. Every node to which something was added is discharged in the round, is discovered
or is the sink, so nothing is left unsettled when the round is closed.
-/

namespace PushRelabel.Round

variable {K : Type} {g : FlowGraph K} {source sink v : g.Node} {start : Preflow g}
  {pending : List g.Node} {r : Round g}

/-- What holds in a round in which the pending nodes are not settled yet. -/
structure Kept [Quantity K] (start : Preflow g) (source sink : g.Node) (pending : List g.Node)
    (r : Round g) : Prop where
  leavesAlone : start.LeavesAlone source r.toPreflow
  source_eq : r.labels[source] = g.nodeCount
  mem_found_iff : ∀ v : g.Node, v ∈ r.found.toList ↔ r.discovered[v] = true
  nodup : r.found.toList.Nodup
  inner : ∀ v ∈ r.found.toList, v ≠ source ∧ v ≠ sink
  added_eq : ∀ v : g.Node, v ∉ pending → v ∉ r.found.toList → v ≠ sink → r.added[v] = 0

theorem found_discover (r : Round g) (v : g.Node) :
    (r.discover v).found.toList =
      if r.discovered[v] then r.found.toList else r.found.toList ++ [v] := by
  unfold discover
  split
  next => rfl
  next => exact Array.toList_push

variable [Quantity K]

/-- It does not matter whether a node is discovered before or after something is added
to it. -/
theorem discover_add (r : Round g) (v : g.Node) (a : K) :
    (r.add v a).discover v = (r.discover v).add v a := by
  unfold discover add
  dsimp only
  split <;> rfl

namespace Kept

theorem discover (h : r.Kept start source sink pending) (hsource : v ≠ source) (hsink : v ≠ sink) :
    (r.discover v).Kept start source sink pending := by
  by_cases hv : r.discovered[v] = true
  · rwa [Round.discover, if_pos hv]
  · have hnot : v ∉ r.found.toList := fun hmem => hv ((h.mem_found_iff v).mp hmem)
    have hfound : ∀ u, u ∈ (r.discover v).found.toList ↔ u ∈ r.found.toList ∨ u = v := by
      intro u
      rw [found_discover, if_neg hv, List.mem_append, List.mem_singleton]
    have hrest : r.discover v =
        { r with discovered := r.discovered.put v true, found := r.found.push v } := if_neg hv
    refine ⟨?_, ?_, fun u => ?_, ?_, fun u hu => ?_, fun u hpending hu hne => ?_⟩
    · rw [hrest]
      exact h.leavesAlone
    · rw [hrest]
      exact h.source_eq
    · rw [hfound, h.mem_found_iff, hrest, Vector.getElem_put]
      by_cases heq : u = v
      · simp [heq]
      · simp [heq]
    · rw [found_discover, if_neg hv]
      refine List.nodup_append.mpr ⟨h.nodup, List.nodup_singleton v, fun u hu w hw heq => ?_⟩
      rw [heq, List.mem_singleton.mp hw] at hu
      exact hnot hu
    · rcases (hfound u).mp hu with hold | rfl
      · exact h.inner u hold
      · exact ⟨hsource, hsink⟩
    · rw [hfound, not_or] at hu
      rw [hrest]
      exact h.added_eq u hpending hu.1 hne

theorem add (h : r.Kept start source sink pending)
    (hv : v ∈ pending ∨ v ∈ r.found.toList ∨ v = sink) (a : K) :
    (r.add v a).Kept start source sink pending := by
  refine ⟨h.leavesAlone, h.source_eq, h.mem_found_iff, h.nodup, h.inner,
    fun u hpending hfound hne => ?_⟩
  have hu : u ≠ v := by
    rintro rfl
    exact hv.elim hpending fun hrest => hrest.elim hfound hne
  rw [Round.add, Vector.getElem_put, if_neg hu]
  exact h.added_eq u hpending hfound hne

theorem push (h : r.Kept start source sink pending) {d : g.DartOf} (hd : d ∈ g.darts v)
    (hv : v ≠ source) (hother : d.other ≠ source) (a : K) :
    { r with flow := g.push r.flow d a }.Kept start source sink pending := by
  refine ⟨⟨fun i hi => ?_, h.leavesAlone.excess_eq⟩, h.source_eq, h.mem_found_iff, h.nodup,
    h.inner, h.added_eq⟩
  rw [FlowGraph.getElem_push_of_ne r.flow hd hv hother a hi]
  exact h.leavesAlone.flow_eq i hi

/-- Sending adds to the node at the other end, which is discovered unless it is the sink. -/
theorem send {s : Scan g} (h : s.round.Kept start source sink pending) {d : g.DartOf}
    (hd : d ∈ g.darts v) (hv : v ≠ source) (hother : d.other ≠ source) :
    (s.send sink d).round.Kept start source sink pending := by
  have hpushed := h.push hd hv hother (Quantity.least s.left (g.residual s.round.flow d))
  unfold Scan.send
  dsimp only
  split
  next hsink => exact hpushed.add (Or.inr (Or.inr hsink)) _
  next hsink =>
    rw [discover_add]
    have hdiscovered := hpushed.discover hother hsink
    refine hdiscovered.add (Or.inr (Or.inl ?_)) _
    rw [found_discover]
    split
    next hold => exact (h.mem_found_iff d.other).mpr hold
    next => exact List.mem_append_right _ (List.mem_singleton.mpr rfl)

end Kept

/-! ## Discharging -/

/-- The other end of a dart has no claim to it: it is the sink, is not active or loses it. -/
def Fair (r : Round g) (sink v : g.Node) (d : g.DartOf) : Prop :=
  d.other = sink ∨ ¬ 0 < r.excess[d.other] ∨ wins r.labels v d.other

/-- A node that has reached a label may send along a dart. -/
structure Scan.Admits (s : Scan g) (sink v : g.Node) (label : Nat) (d : g.DartOf) : Prop where
  mem_darts : d ∈ g.darts v
  left_pos : ¬ s.left ≤ 0
  residual_pos : ¬ g.residual s.round.flow d ≤ 0
  other_lt : s.round.labels[d.other] < g.nodeCount
  label_eq : label = s.round.labels[d.other] + 1
  fair : s.round.Fair sink v d

/-- What looking at a dart can do: nothing, leave it to its other end, send along it, or note
the label at which it admits flow. -/
inductive Scan.Looks (s : Scan g) (sink v : g.Node) (label : Nat) (d : g.DartOf) : Scan g → Prop
  | passes
      (h : s.left ≤ 0 ∨ g.nodeCount ≤ s.round.labels[d.other] ∨ g.residual s.round.flow d ≤ 0 ∨
        s.round.labels[d.other] + 1 < label) : Looks s sink v label d s
  | skips (hlabel : label = s.round.labels[d.other] + 1) (hclaim : ¬ s.round.Fair sink v d) :
      Looks s sink v label d { s with skipped := true }
  | sends (h : s.Admits sink v label d) : Looks s sink v label d (s.send sink d)
  | notes (hlabel : label ≤ s.round.labels[d.other])
      (hother : s.round.labels[d.other] < g.nodeCount) :
      Looks s sink v label d { s with next := min s.next (s.round.labels[d.other] + 1) }

theorem Scan.looks_visit (s : Scan g) (sink : g.Node) (label : Nat) {d : g.DartOf}
    (hd : d ∈ g.darts v) : s.Looks sink v label d (s.visit sink v label d) := by
  unfold Scan.visit
  dsimp only
  split
  next h => exact .passes (h.imp_right (Or.imp_right Or.inl))
  next hsends =>
    rw [not_or, not_or, not_le] at hsends
    obtain ⟨hleft, hother, hresidual⟩ := hsends
    split
    next hlabel =>
      split
      next hclaim => exact .skips hlabel (by simpa only [Fair, not_or, not_not] using hclaim)
      next hfair =>
        refine .sends ⟨hd, hleft, hresidual, hother, hlabel, ?_⟩
        simpa only [Fair, not_and_or, not_not] using hfair
    next hlabel =>
      split
      next hle => exact .notes hle hother
      next hlt => exact .passes (Or.inr (Or.inr (Or.inr (by omega))))

/-- A property of a round and of the excess left to a node that sending from the node, at a
certain label, keeps. -/
def KeptBySending (sink v : g.Node) (label : Nat) (P : Round g → K → Prop) : Prop :=
  ∀ (s : Scan g) (d : g.DartOf), s.Admits sink v label d → P s.round s.left →
    P (s.send sink d).round (s.send sink d).left

namespace KeptBySending

variable {P : Round g → K → Prop} {label : Nat}

theorem foldl_visit (hP : KeptBySending sink v label P) {ds : List g.DartOf}
    (hds : ∀ d ∈ ds, d ∈ g.darts v) {s : Scan g} (h : P s.round s.left) :
    P (ds.foldl (Scan.visit sink v label) s).round
      (ds.foldl (Scan.visit sink v label) s).left := by
  induction ds generalizing s with
  | nil => exact h
  | cons d ds ih =>
      refine ih (fun e he => hds e (List.mem_cons_of_mem d he)) ?_
      have hlooks := s.looks_visit sink label (hds d List.mem_cons_self)
      revert hlooks
      generalize s.visit sink v label d = t
      intro hlooks
      cases hlooks with
      | passes => exact h
      | skips => exact h
      | sends hadmits => exact hP s d hadmits h
      | notes => exact h

theorem scan (hP : KeptBySending sink v label P) (left : K) (h : P r left) :
    P (scan sink v label left r).round (Round.scan sink v label left r).left :=
  hP.foldl_visit (fun _ hd => hd) h

end KeptBySending

/-- Sending from the node keeps a property at a label and at all higher ones, which are below
the sentinel unless the first one is not. -/
def KeptByClimbing (sink v : g.Node) (label : Nat) (P : Round g → K → Prop) : Prop :=
  ∀ next, label ≤ next → (label < g.nodeCount → next < g.nodeCount) →
    KeptBySending sink v next P

theorem KeptByClimbing.climb {P : Round g → K → Prop} {label : Nat}
    (hP : KeptByClimbing sink v label P) (left : K) (h : P r left) :
    P (climb sink v label left r).1 (Round.climb sink v label left r).2.1 := by
  have hscan := (hP label le_rfl id).scan left h
  induction label, left, r using Round.climb.induct sink v with
  | case1 label left r s hdone =>
      rw [Round.climb, if_pos hdone]
      exact hscan
  | case2 label left r s hgoes hnext ih =>
      rw [Round.climb, if_neg hgoes, dif_pos hnext]
      have hhigher : KeptByClimbing sink v s.next P :=
        fun next hle hlt => hP next (hnext.1.le.trans hle) fun _ => hlt hnext.2
      exact ih hhigher hscan ((hhigher s.next le_rfl id).scan s.left hscan)
  | case3 label left r s hgoes hnext =>
      rw [Round.climb, if_neg hgoes, dif_neg hnext]
      exact hscan

/-- What a discharge leaves as it was at the start of the round. -/
structure Untouched (r q : Round g) : Prop where
  excess_eq : q.excess = r.excess
  labels_eq : q.labels = r.labels
  search_eq : q.search = r.search
  journal_eq : q.journal = r.journal
  counts_eq : q.counts = r.counts
  emptied_eq : q.emptied = r.emptied

omit [Quantity K] in
theorem Untouched.trans {q t : Round g} (h : r.Untouched q) (ht : q.Untouched t) :
    r.Untouched t :=
  ⟨ht.excess_eq.trans h.excess_eq, ht.labels_eq.trans h.labels_eq, ht.search_eq.trans h.search_eq,
    ht.journal_eq.trans h.journal_eq, ht.counts_eq.trans h.counts_eq,
    ht.emptied_eq.trans h.emptied_eq⟩

theorem Untouched.isActive_iff {q : Round g} (h : r.Untouched q) :
    q.IsActive v ↔ r.IsActive v := by
  rw [Preflow.IsActive, Preflow.IsActive, h.excess_eq, h.labels_eq]

theorem Untouched.fair_iff {q : Round g} (h : r.Untouched q) {d : g.DartOf} :
    q.Fair sink v d ↔ r.Fair sink v d := by
  rw [Fair, Fair, h.excess_eq, h.labels_eq]

omit [Quantity K] in
theorem untouched_discover (r : Round g) (v : g.Node) : r.Untouched (r.discover v) := by
  unfold discover
  split <;> exact ⟨rfl, rfl, rfl, rfl, rfl, rfl⟩

theorem untouched_send (s : Scan g) (sink : g.Node) (d : g.DartOf) :
    s.round.Untouched (s.send sink d).round := by
  unfold Scan.send
  dsimp only
  split
  · exact ⟨rfl, rfl, rfl, rfl, rfl, rfl⟩
  · refine Untouched.trans ?_ (untouched_discover _ _)
    exact ⟨rfl, rfl, rfl, rfl, rfl, rfl⟩

theorem untouched_climb (sink v : g.Node) (label : Nat) (left : K) (r : Round g) :
    r.Untouched (climb sink v label left r).1 := by
  have hsend : KeptByClimbing sink v label fun q _ => r.Untouched q :=
    fun _ _ _ s d _ h => h.trans (untouched_send s sink d)
  exact hsend.climb left ⟨rfl, rfl, rfl, rfl, rfl, rfl⟩

/-- Notes the label that a discharged node asks for. -/
def staging (r : Round g) (v : g.Node) (label : Nat) : Round g :=
  { r with staged := r.staged.put v label, effort := r.effort + Pass.effort g v }

/-- Takes from a discharged node what it has sent. -/
def spend (r : Round g) (v : g.Node) (sent : K) : Round g :=
  if 0 < sent then r.add v (-sent) else r

theorem discharge_eq {c : Round g} {left : K} {label : Nat}
    (h : climb sink v r.labels[v] r.excess[v] r = (c, left, label)) :
    r.discharge sink v =
      if 0 < left ∧ label < g.nodeCount
      then ((c.staging v label).spend v (r.excess[v] - left)).discover v
      else (c.staging v label).spend v (r.excess[v] - left) := by
  simp only [discharge, h]
  rfl

theorem untouched_discharge (sink v : g.Node) (r : Round g) : r.Untouched (r.discharge sink v) := by
  have hclimbed := untouched_climb sink v r.labels[v] r.excess[v] r
  rcases hclimb : climb sink v r.labels[v] r.excess[v] r with ⟨c, left, label⟩
  rw [hclimb] at hclimbed
  have hspent : r.Untouched ((c.staging v label).spend v (r.excess[v] - left)) := by
    refine hclimbed.trans ?_
    unfold spend
    split <;> exact ⟨rfl, rfl, rfl, rfl, rfl, rfl⟩
  rw [discharge_eq hclimb]
  split
  · exact hspent.trans (untouched_discover _ _)
  · exact hspent

theorem untouched_foldl_discharge (sink : g.Node) (vs : List g.Node) (r : Round g) :
    r.Untouched (vs.foldl (fun r v => r.discharge sink v) r) := by
  induction vs generalizing r with
  | nil => exact ⟨rfl, rfl, rfl, rfl, rfl, rfl⟩
  | cons v vs ih => exact (untouched_discharge sink v r).trans (ih _)

/-- The nodes of a list take their turns. -/
def sweep (sink : g.Node) (vs : List g.Node) (r : Round g) : Round g :=
  vs.foldl (fun r v => r.discharge sink v) r

namespace Kept

theorem staging (h : r.Kept start source sink pending) (v : g.Node) (label : Nat) :
    (r.staging v label).Kept start source sink pending :=
  ⟨h.leavesAlone, h.source_eq, h.mem_found_iff, h.nodup, h.inner, h.added_eq⟩

theorem spend (h : r.Kept start source sink pending) (hpending : v ∈ pending) (sent : K) :
    (r.spend v sent).Kept start source sink pending := by
  unfold Round.spend
  split
  · exact h.add (Or.inl hpending) _
  · exact h

theorem discharge (h : r.Kept start source sink pending) (hpending : v ∈ pending)
    (hsource : v ≠ source) (hsink : v ≠ sink) :
    (r.discharge sink v).Kept start source sink pending := by
  have hsend : KeptByClimbing sink v r.labels[v]
      fun r' _ => r'.Kept start source sink pending := by
    intro _ _ _ s d hd hs
    -- the label of the source is the sentinel, also while labels are stale
    refine hs.send hd.mem_darts hsource fun heq => ?_
    have hsentinel : s.round.labels[d.other] = g.nodeCount := by
      simp only [heq]
      exact hs.source_eq
    exact hd.other_lt.ne hsentinel
  have hclimbed := hsend.climb r.excess[v] h
  rcases hclimb : climb sink v r.labels[v] r.excess[v] r with ⟨c, left, label⟩
  rw [hclimb] at hclimbed
  have hspent := (hclimbed.staging v label).spend hpending (r.excess[v] - left)
  rw [discharge_eq hclimb]
  split
  · exact hspent.discover hsource hsink
  · exact hspent

end Kept

/-! ## Committing and closing -/

namespace Kept

theorem setLabel (h : r.Kept start source sink pending) (hv : v ≠ source) (label : Nat) :
    (r.setLabel v label).Kept start source sink pending := by
  have hsource : (r.labels.put v label)[source] = g.nodeCount := by
    rw [Vector.getElem_put, if_neg hv.symm]
    exact h.source_eq
  unfold Round.setLabel
  dsimp only
  split
  · exact ⟨⟨h.leavesAlone.flow_eq, h.leavesAlone.excess_eq⟩, hsource, h.mem_found_iff, h.nodup,
      h.inner, h.added_eq⟩
  · exact ⟨⟨h.leavesAlone.flow_eq, h.leavesAlone.excess_eq⟩, hsource, h.mem_found_iff, h.nodup,
      h.inner, h.added_eq⟩

theorem settle (h : r.Kept start source sink (v :: pending)) (hv : v ≠ source) :
    (r.settle v).Kept start source sink pending := by
  refine ⟨⟨h.leavesAlone.flow_eq, ?_⟩, h.source_eq, h.mem_found_iff, h.nodup, h.inner,
    fun u hpending hfound hne => ?_⟩
  · rw [Round.settle, Vector.getElem_put, if_neg hv.symm]
    exact h.leavesAlone.excess_eq
  · rw [Round.settle, Vector.getElem_put]
    by_cases hu : u = v
    · rw [if_pos hu]
    · rw [if_neg hu]
      exact h.added_eq u (List.not_mem_cons_of_ne_of_not_mem hu hpending) hfound hne

theorem commit (h : r.Kept start source sink (v :: pending)) (hv : v ≠ source) :
    (r.commit v).Kept start source sink pending := by
  unfold Round.commit
  dsimp only
  refine settle ?_ hv
  split
  · exact h
  · exact h.setLabel hv _

theorem foldl_commit {vs : List g.Node} (h : r.Kept start source sink (vs ++ pending))
    (hvs : ∀ v ∈ vs, v ≠ source) :
    (vs.foldl (fun r v => r.commit v) r).Kept start source sink pending := by
  induction vs generalizing r with
  | nil => exact h
  | cons v vs ih =>
      exact ih (h.commit (hvs v List.mem_cons_self)) fun u hu => hvs u (List.mem_cons_of_mem v hu)

theorem closeGap (h : r.Kept start source sink pending) :
    r.closeGap.Kept start source sink pending := by
  unfold Round.closeGap
  dsimp only
  split
  · refine ⟨⟨h.leavesAlone.flow_eq, h.leavesAlone.excess_eq⟩, ?_, h.mem_found_iff, h.nodup,
      h.inner, h.added_eq⟩
    unfold Round.retireAbove
    rw [getElem_foldl_setIfInBounds]
    split
    · rfl
    · exact h.source_eq
  · exact ⟨h.leavesAlone, h.source_eq, h.mem_found_iff, h.nodup, h.inner, h.added_eq⟩

theorem foldl_discharge (h : r.Kept start source sink pending) {vs : List g.Node}
    (hvs : ∀ v ∈ vs, v ∈ pending ∧ v ≠ source ∧ v ≠ sink) :
    (vs.foldl (fun r v => r.discharge sink v) r).Kept start source sink pending := by
  induction vs generalizing r with
  | nil => exact h
  | cons v vs ih =>
      obtain ⟨hpending, hsource, hsink⟩ := hvs v List.mem_cons_self
      exact ih (h.discharge hpending hsource hsink) fun u hu => hvs u (List.mem_cons_of_mem v hu)

end Kept

/-! What releasing nodes one after the other leaves. -/

section Release

variable {α : Type} (vs : List g.Node) (r : Round g)

theorem unchanged_foldl_release (f : Round g → α) (hf : ∀ r v, f (release r v) = f r) :
    f (vs.foldl release r) = f r := by
  induction vs generalizing r with
  | nil => rfl
  | cons v vs ih => rw [List.foldl_cons, ih, hf]

/-- A table of which each release clears one entry. -/
theorem getElem_foldl_release (f : Round g → Vector α g.nodeCount) {blank : α}
    (hf : ∀ r v, f (release r v) = (f r).put v blank) (u : g.Node) :
    (f (vs.foldl release r))[u] = if u ∈ vs then blank else (f r)[u] := by
  induction vs generalizing r with
  | nil => simp
  | cons v vs ih =>
      rw [List.foldl_cons, ih, hf, Vector.getElem_put]
      by_cases hmem : u ∈ vs
      · rw [if_pos hmem, if_pos (List.mem_cons_of_mem v hmem)]
      · by_cases hu : u = v
        · simp [hu]
        · simp [hu, hmem]

theorem flow_foldl_release : (vs.foldl release r).flow = r.flow :=
  unchanged_foldl_release vs r (fun r => r.flow) fun _ _ => rfl

theorem labels_foldl_release : (vs.foldl release r).labels = r.labels :=
  unchanged_foldl_release vs r (fun r => r.labels) fun _ _ => rfl

theorem found_foldl_release : (vs.foldl release r).found = r.found :=
  unchanged_foldl_release vs r (fun r => r.found) fun _ _ => rfl

theorem added_foldl_release (u : g.Node) :
    (vs.foldl release r).added[u] = if u ∈ vs then 0 else r.added[u] :=
  getElem_foldl_release vs r (fun r => r.added) (fun _ _ => rfl) u

theorem discovered_foldl_release (u : g.Node) :
    (vs.foldl release r).discovered[u] = if u ∈ vs then false else r.discovered[u] :=
  getElem_foldl_release vs r (fun r => r.discovered) (fun _ _ => rfl) u

theorem excess_foldl_release {u : g.Node} (hu : u ∉ vs) :
    (vs.foldl release r).excess[u] = r.excess[u] := by
  induction vs generalizing r with
  | nil => rfl
  | cons v vs ih =>
      rw [List.foldl_cons, ih _ (List.not_mem_of_not_mem_cons hu)]
      unfold release settle
      rw [Vector.getElem_put, if_neg (List.ne_of_not_mem_cons hu)]

end Release

/-- What follows the turns of a round: labels are committed, the lowest gap is closed and what
was added is settled. -/
def ending (sink : g.Node) (vs : List g.Node) (r : Round g) : Round g :=
  (vs.foldl (fun r v => r.commit v) r).closeGap.settleFound.close sink

theorem settleFound_eq (r : Round g) : r.settleFound = r.found.toList.foldl release r := by
  rw [settleFound, ← Array.foldl_toList]

/-- What holds between two rounds: nothing is discovered and nothing is unsettled. -/
structure Idle (start : Preflow g) (source : g.Node) (r : Round g) : Prop where
  leavesAlone : start.LeavesAlone source r.toPreflow
  source_eq : r.labels[source] = g.nodeCount
  added_eq : ∀ v : g.Node, r.added[v] = 0
  discovered_eq : ∀ v : g.Node, r.discovered[v] = false
  found_eq : r.found = #[]

theorem Idle.congr (h : r.Idle start source) {q : Round g} (hpreflow : q.toPreflow = r.toPreflow)
    (hadded : q.added = r.added) (hdiscovered : q.discovered = r.discovered)
    (hfound : q.found = r.found) : q.Idle start source :=
  ⟨hpreflow ▸ h.leavesAlone, hpreflow ▸ h.source_eq, hadded ▸ h.added_eq,
    hdiscovered ▸ h.discovered_eq, hfound ▸ h.found_eq⟩

theorem Idle.kept (h : r.Idle start source) (sink : g.Node) (pending : List g.Node) :
    r.Kept start source sink pending := by
  refine ⟨h.leavesAlone, h.source_eq, fun v => ?_, ?_, ?_, fun v _ _ _ => h.added_eq v⟩
  · simp [h.found_eq, h.discovered_eq v]
  · simp [h.found_eq]
  · simp [h.found_eq]

theorem Kept.idle_close (h : r.Kept start source sink []) (hne : sink ≠ source) :
    (r.settleFound.close sink).Idle start source := by
  have hsource : source ∉ r.found.toList := fun hmem => (h.inner source hmem).1 rfl
  rw [settleFound_eq]
  refine ⟨⟨fun i hi => ?_, ?_⟩, ?_, fun v => ?_, fun v => ?_, rfl⟩
  · change (r.found.toList.foldl release r).flow[i] = _
    rw [flow_foldl_release]
    exact h.leavesAlone.flow_eq i hi
  · change ((r.found.toList.foldl release r).excess.put sink _)[source] = _
    rw [Vector.getElem_put, if_neg hne.symm, excess_foldl_release _ _ hsource]
    exact h.leavesAlone.excess_eq
  · change (r.found.toList.foldl release r).labels[source] = _
    rw [labels_foldl_release]
    exact h.source_eq
  · change ((r.found.toList.foldl release r).added.put sink 0)[v] = _
    rw [Vector.getElem_put, added_foldl_release]
    by_cases hsink : v = sink
    · rw [if_pos hsink]
    · rw [if_neg hsink]
      by_cases hfound : v ∈ r.found.toList
      · rw [if_pos hfound]
      · rw [if_neg hfound]
        exact h.added_eq v List.not_mem_nil hfound hsink
  · change (r.found.toList.foldl release r).discovered[v] = _
    rw [discovered_foldl_release]
    by_cases hfound : v ∈ r.found.toList
    · rw [if_pos hfound]
    · rw [if_neg hfound]
      exact Bool.eq_false_iff.mpr fun htrue => hfound ((h.mem_found_iff v).mpr htrue)

/-- The nodes of the next round are distinct and between the terminals. -/
theorem Kept.survivors (h : r.Kept start source sink pending) :
    r.settleFound.survivors.Nodup ∧ ∀ v ∈ r.settleFound.survivors, v ≠ source ∧ v ≠ sink := by
  rw [settleFound_eq, Round.survivors, found_foldl_release]
  exact ⟨h.nodup.filter _, fun v hv => h.inner v (List.mem_of_mem_filter hv)⟩

end PushRelabel.Round
