import PushRelabel.Proofs.Flow.Paths
import PushRelabel.Proofs.FlowGraph.Meaning
import PushRelabel.Proofs.Pass.Overlooked

/-! # Nodes that a gap retires in rounds

A gap cuts the nodes above it off from the sink only as far as labels are valid. Between two
rounds they are valid except for the darts that the rounds have overlooked since the labels were
recomputed, so a node with the sentinel label reaches the sink through such darts or not at all.
Through them it may well reach it: one round is enough for a gap to retire a node that is close to
the sink.
-/

namespace PushRelabel

namespace Round

variable {K : Type} [AddCommGroup K] [LinearOrder K] {g : FlowGraph K} {source sink : g.Node}
  {r : Round g} {excused : Set g.DartOf}

/-- With right counters no node has the label at which a gap is closed, so the labels stay as
valid as they were. -/
theorem Counted.validExcept_closeGap (h : r.Counted)
    (hvalid : g.ValidExcept excused r.flow r.labels source sink) :
    g.ValidExcept excused r.closeGap.flow r.closeGap.labels source sink := by
  rw [(sameHeld_closeGap r).flow_eq]
  rcases r.labels_closeGap_cases with hsame | ⟨c, gap, hcounts, -, hempty, hlabels⟩
  · rwa [hsame]
  · have hunused := ((h c hcounts).isEmptyAt_iff gap).mp hempty
    exact hvalid.retire hunused.2 hlabels

end Round

namespace Rounds

section Since

variable {K : Type} [AddCommGroup K] [LinearOrder K] {g : FlowGraph K} {source sink : g.Node}
  {s t : Rounds g} {darts : Set g.DartOf}

/-- A state between two rounds, with the darts that were overlooked since the labels were
recomputed. -/
inductive OverlookedSince (source sink : g.Node) (s : Rounds g) : Set g.DartOf → Rounds g → Prop
  | started {t : Rounds g} (journal : Journal K)
      (hrelabel : relabel source sink { s with toRound := s.prepare } = .ok () t) :
      OverlookedSince source sink s ∅ { t with journal := journal }
  | discharged {darts : Set g.DartOf} {t p q : Rounds g}
      (ht : OverlookedSince source sink s darts t)
      (hdischarge : discharge sink t = .ok () p) (hrenew : renew sink p = .ok () q) :
      OverlookedSince source sink s (darts ∪ t.overlooked sink) q
  | relabelled {darts : Set g.DartOf} {t q : Rounds g} (journal : Journal K)
      (ht : OverlookedSince source sink s darts t)
      (hrelabel : relabel source sink t = .ok () q) :
      OverlookedSince source sink s ∅ { q with journal := journal }
  | reordered {darts : Set g.DartOf} {t : Rounds g} {w : WorkingSet g.Node} {vs : List g.Node}
      (ht : OverlookedSince source sink s darts t) (hw : w.Lists vs)
      (hperm : vs.Perm t.workingSet.toList) :
      OverlookedSince source sink s darts { t with workingSet := w }

theorem OverlookedSince.between (h : OverlookedSince source sink s darts t) :
    Between source sink s t := by
  induction h with
  | started journal hrelabel => exact .started journal hrelabel
  | discharged _ hdischarge hrenew ih => exact ih.discharged hdischarge hrenew
  | relabelled journal _ hrelabel ih => exact ih.relabelled journal hrelabel
  | reordered _ hw hperm ih => exact ih.reordered hw hperm

theorem Between.exists_overlookedSince (h : Between source sink s t) :
    ∃ darts, OverlookedSince source sink s darts t := by
  induction h with
  | started journal hrelabel => exact ⟨∅, .started journal hrelabel⟩
  | discharged _ hdischarge hrenew ih =>
      obtain ⟨darts, ht⟩ := ih
      exact ⟨_, ht.discharged hdischarge hrenew⟩
  | relabelled journal _ hrelabel ih =>
      obtain ⟨darts, ht⟩ := ih
      exact ⟨∅, ht.relabelled journal hrelabel⟩
  | reordered _ hw hperm ih =>
      obtain ⟨darts, ht⟩ := ih
      exact ⟨darts, ht.reordered hw hperm⟩

end Since

variable {K : Type} [AddCommGroup K] [LinearOrder K] [IsOrderedAddMonoid K] {p : Problem K}
  {g : FlowGraph K} {giver source sink : g.Node} {start : Preflow g} {s t q : Rounds g}
  {darts : Set g.DartOf} {u w : Unit}

/-- Labels are valid except for some darts, and the counters are right. -/
structure Sound (source sink : g.Node) (excused : Set g.DartOf) (r : Round g) : Prop where
  validExcept : g.ValidExcept excused r.flow r.labels source sink
  counted : r.Counted

omit [IsOrderedAddMonoid K] in
theorem sound_of_relabel (hne : source ≠ sink) (h : relabel source sink s = .ok u t) :
    Sound source sink ∅ t.toRound := by
  obtain ⟨⟨-, -, hexact⟩, -⟩ := relabel_eq_ok hne h
  exact ⟨hexact.toValidLabels.validExcept ∅, (booked_of_relabel hne h).counted⟩

theorem Sound.discharge (h : Sound source sink darts s.toRound) (hproper : g.Proper)
    (hpoised : s.Poised start giver source sink) (hdischarge : discharge sink s = .ok u t) :
    Sound source sink (darts ∪ s.overlooked sink) t.closeGap := by
  have hvalid := validExcept_discharge hproper hpoised h.validExcept hdischarge
  have huntouched := untouched_swept sink s
  have hcounted : t.toRound.Counted := by
    obtain ⟨hround, -⟩ := discharge_eq_ok hpoised.kept.lists.cursor_eq hdischarge
    rw [hround]
    exact (h.counted.congr huntouched.counts_eq huntouched.labels_eq).foldl_commit _
  exact ⟨hcounted.validExcept_closeGap hvalid, hcounted.closeGap⟩

omit [IsOrderedAddMonoid K] in
theorem Sound.renew (h : Sound source sink darts t.closeGap)
    (hrenew : renew sink t = .ok u q) : Sound source sink darts q.toRound := by
  obtain ⟨hround, -⟩ := renew_eq_ok hrenew
  have hflow : q.flow = t.closeGap.flow := by
    rw [hround]
    exact (Round.sameHeld_settleFound _).flow_eq
  have hlabels : q.labels = t.closeGap.labels := by
    rw [hround]
    exact Round.labels_settleFound _
  constructor
  · rw [hflow, hlabels]
    exact h.validExcept
  · rw [hround]
    exact h.counted.close sink

/-- What the rounds have overlooked since the labels were recomputed is all that keeps the labels
from being valid. -/
theorem OverlookedSince.sound (h : OverlookedSince source sink s darts t) (hproper : g.Proper)
    (hne : source ≠ sink) (hfits : g.Fits s.flow)
    (hexcess : ∀ v : g.Node, v ≠ giver → 0 ≤ s.excess[v]) (hadded : ∀ v : g.Node, s.added[v] = 0) :
    Sound source sink darts t.toRound := by
  induction h with
  | started journal hrelabel =>
      have hsound := sound_of_relabel hne hrelabel
      exact ⟨hsound.validExcept, hsound.counted⟩
  | discharged ht hdischarge hrenew ih =>
      have hpoised := ht.between.poised hproper hne hfits hexcess hadded
      exact (ih.discharge hproper hpoised hdischarge).renew hrenew
  | relabelled journal _ hrelabel _ =>
      have hsound := sound_of_relabel hne hrelabel
      exact ⟨hsound.validExcept, hsound.counted⟩
  | reordered _ _ _ ih => exact ⟨ih.validExcept, ih.counted⟩

/-- Where a gap is closed after a round, a node with the sentinel label, whether the gap retires
it or not, reaches the sink only through darts that this round and those since the labels were
recomputed have overlooked. If they overlooked none, it does not reach the sink at all. Each state
between two rounds has such darts. -/
theorem cut_off_at_gap (hbuild : p.build = .ok g) (hne : source ≠ sink)
    (hfits : g.Fits s.flow) (hexcess : ∀ v : g.Node, v ≠ giver → 0 ≤ s.excess[v])
    (hadded : ∀ v : g.Node, s.added[v] = 0) (h : Between source sink s t)
    (hdischarge : discharge sink t = .ok u q) :
    (∃ darts, OverlookedSince source sink s darts t) ∧
      ∀ darts, OverlookedSince source sink s darts t →
        ∀ v : g.Node, q.closeGap.labels[v] = g.nodeCount →
          ¬ g.ReachesAround (darts ∪ t.overlooked sink) q.closeGap.flow source v sink ∧
            (darts ∪ t.overlooked sink = ∅ → ¬ g.Reaches q.closeGap.flow source v sink) := by
  have hproper := Problem.proper_of_build hbuild
  refine ⟨h.exists_overlookedSince, fun darts hdarts v hv => ?_⟩
  have hpoised := h.poised hproper hne hfits hexcess hadded
  have hsound := (hdarts.sound hproper hne hfits hexcess hadded).discharge hproper hpoised
    hdischarge
  have hnot := hsound.validExcept.not_reachesAround hv
  exact ⟨hnot, fun hnone hreaches => hnot (hnone ▸ hreaches.around)⟩

/-- Node 1 can send to the sink through node 4 or through node 0, which has another way only
through node 3. -/
def backwater : Problem ℤ where
  network := ⟨7, #[#[(5, 1), (3, 5)], #[(0, 5), (4, 5)], #[(1, 1)], #[(2, 5)], #[(5, 9)], #[]],
    by decide⟩
  limits := .replicate 6 none
  sources := .map [(0, 3), (1, 2), (2, 3)]
  targets := .map [(5, 9)]

def backwaterGraph : FlowGraph ℤ :=
  backwater.assemble ⟨[((0 : Fin 6), 3), ((1 : Fin 6), 2), ((2 : Fin 6), 3)], [((5 : Fin 6), 9)]⟩

theorem build_backwater : backwater.build = .ok backwaterGraph := rfl

/-- The first pass with gap detection, before its first round. -/
def brimming : Rounds backwaterGraph :=
  .start .counts 1024
    (.start 1024 (Preflow.ofFlow backwaterGraph.initialFlow).saturate (.start false none))

theorem balanced_brimming : backwaterGraph.Fits brimming.flow ∧
    (∀ v : backwaterGraph.Node, v ≠ backwaterGraph.source → 0 ≤ brimming.excess[v]) ∧
    ∀ v : backwaterGraph.Node, brimming.added[v] = 0 := by
  have hproper := Problem.proper_of_build build_backwater
  have hsaturating := Preflow.saturating_saturate
    (p := Preflow.ofFlow backwaterGraph.initialFlow)
    (FlowGraph.isFlow_initialFlow hproper).fits
  refine ⟨hsaturating.balanced.fits, hsaturating.balanced.excess_nonneg, fun v => ?_⟩
  simp [brimming, Rounds.start, Round.start]

/-- The way that node 0 has to the sink, back along what it was sent. -/
def wayBack : List backwaterGraph.Node := ([0, 1, 4, 5, 7] : List (Fin 8))

/-- The labels after the first round, before and after its gap is closed, and whether the way back
is open then. -/
def firstGap? : Option (List Nat × List Nat × Bool) :=
  let g := backwaterGraph
  match relabel g.source g.target { brimming with toRound := brimming.prepare } with
  | .error _ _ => none
  | .ok _ t =>
      match discharge g.target t with
      | .error _ _ => none
      | .ok _ q =>
          some (q.labels.toList, q.closeGap.labels.toList,
            decide (wayBack.IsChain (g.Leads q.closeGap.flow g.source)))

set_option maxRecDepth 10000 in
theorem firstGap?_eq :
    firstGap? = some ([6, 3, 8, 5, 2, 1, 8, 0], [8, 3, 8, 8, 2, 1, 8, 0], true) := by
  decide +kernel

theorem exists_firstGap : ∃ t q,
    Between backwaterGraph.source backwaterGraph.target brimming t ∧
      discharge backwaterGraph.target t = .ok () q ∧
      q.labels.toList = [6, 3, 8, 5, 2, 1, 8, 0] ∧
      q.closeGap.labels.toList = [8, 3, 8, 8, 2, 1, 8, 0] ∧
      wayBack.IsChain (backwaterGraph.Leads q.closeGap.flow backwaterGraph.source) := by
  have hgap := firstGap?_eq
  unfold firstGap? at hgap
  dsimp only at hgap
  split at hgap
  next => cases hgap
  next t hrelabel =>
    split at hgap
    next => cases hgap
    next q hdischarge =>
      simp only [Option.some.injEq, Prod.mk.injEq, decide_eq_true_eq] at hgap
      exact ⟨_, q, .started t.journal hrelabel, hdischarge, hgap⟩

/-- Node 1 sends to node 0, which looks for another way without seeing that it could send back.
Since node 2 is retired, no node is left at the label 4, and node 0 is retired as well. -/
theorem cut_off_at_gap_backwater : ∃ t q, backwater.build = .ok backwaterGraph ∧
    backwaterGraph.source ≠ backwaterGraph.target ∧ backwaterGraph.Fits brimming.flow ∧
    (∀ v : backwaterGraph.Node, v ≠ backwaterGraph.source → 0 ≤ brimming.excess[v]) ∧
    (∀ v : backwaterGraph.Node, brimming.added[v] = 0) ∧
    Between backwaterGraph.source backwaterGraph.target brimming t ∧
    discharge backwaterGraph.target t = .ok () q ∧
    q.closeGap.labels.toList = [8, 3, 8, 8, 2, 1, 8, 0] ∧
    (∃ darts, OverlookedSince backwaterGraph.source backwaterGraph.target brimming darts t) ∧
      ∀ darts, OverlookedSince backwaterGraph.source backwaterGraph.target brimming darts t →
        ∀ v : backwaterGraph.Node, q.closeGap.labels[v] = backwaterGraph.nodeCount →
          ¬ backwaterGraph.ReachesAround (darts ∪ t.overlooked backwaterGraph.target)
            q.closeGap.flow backwaterGraph.source v backwaterGraph.target ∧
          (darts ∪ t.overlooked backwaterGraph.target = ∅ →
            ¬ backwaterGraph.Reaches q.closeGap.flow backwaterGraph.source v
              backwaterGraph.target) := by
  obtain ⟨t, q, hbetween, hdischarge, -, hclosed, -⟩ := exists_firstGap
  obtain ⟨hfits, hexcess, hadded⟩ := balanced_brimming
  have hne : backwaterGraph.source ≠ backwaterGraph.target := backwaterGraph.source_ne_target
  exact ⟨t, q, build_backwater, hne, hfits, hexcess, hadded, hbetween, hdischarge, hclosed,
    cut_off_at_gap build_backwater hne hfits hexcess hadded hbetween hdischarge⟩

/-- After the first round the gap retires node 0, which can send to the sink through nodes 1, 4
and 5. -/
theorem reaches_after_gap_backwater : ∃ t q, backwater.build = .ok backwaterGraph ∧
    backwaterGraph.Fits brimming.flow ∧
    (∀ v : backwaterGraph.Node, v ≠ backwaterGraph.source → 0 ≤ brimming.excess[v]) ∧
    (∀ v : backwaterGraph.Node, brimming.added[v] = 0) ∧
    Between backwaterGraph.source backwaterGraph.target brimming t ∧
    discharge backwaterGraph.target t = .ok () q ∧
    ∃ v : backwaterGraph.Node, v.val = 0 ∧ q.labels[v] ≠ backwaterGraph.nodeCount ∧
      q.closeGap.labels[v] = backwaterGraph.nodeCount ∧
      backwaterGraph.Reaches q.closeGap.flow backwaterGraph.source v backwaterGraph.target := by
  obtain ⟨t, q, hbetween, hdischarge, hlabels, hclosed, hway⟩ := exists_firstGap
  obtain ⟨hfits, hexcess, hadded⟩ := balanced_brimming
  refine ⟨t, q, build_backwater, hfits, hexcess, hadded, hbetween, hdischarge, (0 : Fin 8), rfl,
    ?_, ?_, ?_⟩
  · change q.labels[0] ≠ 8
    rw [← Vector.getElem_toList] <;> simp [hlabels]
  · change q.closeGap.labels[0] = 8
    rw [← Vector.getElem_toList] <;> simp [hclosed]
  · exact List.relationReflTransGen_of_exists_isChain_cons _ hway rfl

end Rounds

end PushRelabel
