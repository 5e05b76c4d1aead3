import PushRelabel.Proofs.Gap.Watch
import PushRelabel.Proofs.Pass.Closing
import PushRelabel.Proofs.Pass.Queueing
import PushRelabel.Proofs.Pass.Rounds

/-! # Labels stay in range

No label ever exceeds the sentinel. So what a discharge or a round does to labels and to the gap
detector could as well be asked of a watch, which stops at the first access out of range: it
accepts every change, and ends with the same labels and the same detector. This does not depend
on the arithmetic.
-/

namespace PushRelabel

variable {K : Type} {g : FlowGraph K} {source sink v : g.Node}

namespace Fifo

variable {s t : Fifo g}

def watch (s : Fifo g) : Watch g.nodeCount := .of s.gaps s.labels

theorem change_watch (h : s.gaps.Tracks s.labels) (hn : g.nodeCount < Word.largest) (v : g.Node)
    {label : Nat} (hlabel : label ≤ g.nodeCount) :
    Watch.change v label s.watch = .ok () (s.setLabel v label).1.watch := by
  refine (Watch.change_of h hn hlabel).trans ?_
  unfold setLabel
  dsimp only
  split <;> rfl

theorem tracks_raiseLabel (h : s.gaps.Tracks s.labels) (v : g.Node) (label : Nat) :
    (s.raiseLabel v label).1.gaps.Tracks (s.raiseLabel v label).1.labels := by
  unfold raiseLabel
  split
  · exact (moved_setLabel h v label).tracks
  · exact h

variable [Quantity K]

/-- The labels that a scan of candidates gives to the node. -/
def scanLabels (sink v : g.Node) : List (Nat × g.DartOf) → Fifo g → List Nat
  | [], _ => []
  | (label, d) :: rest, s =>
      let raised := if s.labels[v] < label + 1 then [label + 1] else []
      let (s, retired) := s.raiseLabel v (label + 1)
      let later :=
        if retired then []
        else if g.residual s.flow d ≤ 0 then scanLabels sink v rest s
        else
          let s := s.send sink v d
          if s.excess[v] ≤ 0 then [] else scanLabels sink v rest s
      raised ++ later

/-- The labels that the discharge of a node gives to it. -/
def newLabels (sink v : g.Node) (s : Fifo g) : List Nat :=
  let (t, retired) := scan sink v (s.candidates v) s
  scanLabels sink v (s.candidates v) s ++
    if retired = false ∧ 0 < t.excess[v] then [g.nodeCount] else []

theorem send_eq (s : Fifo g) (sink v : g.Node) (d : g.DartOf) :
    (s.send sink v d).gaps = s.gaps ∧ (s.send sink v d).labels = s.labels := by
  unfold send enqueue
  dsimp only
  split
  · exact ⟨rfl, rfl⟩
  · split <;> exact ⟨rfl, rfl⟩

/-- A watch accepts what a scan of candidates does to the label of the node. -/
theorem changeAll_scanLabels {cs : List (Nat × g.DartOf)} (h : s.gaps.Tracks s.labels)
    (hn : g.nodeCount < Word.largest) (hcs : ∀ c ∈ cs, c.1 < g.nodeCount) (sink v : g.Node) :
    Watch.changeAll v (scanLabels sink v cs s) s.watch = .ok () (scan sink v cs s).1.watch ∧
      (scan sink v cs s).1.gaps.Tracks (scan sink v cs s).1.labels := by
  induction cs generalizing s with
  | nil => exact ⟨rfl, h⟩
  | cons c cs ih =>
      rcases c with ⟨label, d⟩
      have hlt := hcs _ List.mem_cons_self
      have hrest := fun c hc => hcs c (List.mem_cons_of_mem _ hc)
      have hraised := tracks_raiseLabel h v (label + 1)
      have hnow : Watch.changeAll v (if s.labels[v] < label + 1 then [label + 1] else []) s.watch =
          .ok () (s.raiseLabel v (label + 1)).1.watch := by
        unfold raiseLabel
        split
        · exact bind_of_ok (change_watch h hn v hlt)
        · rfl
      -- sending changes neither labels nor detector
      obtain ⟨hgaps, hlabels⟩ := send_eq (s.raiseLabel v (label + 1)).1 sink v d
      have hsent : ((s.raiseLabel v (label + 1)).1.send sink v d).watch =
          (s.raiseLabel v (label + 1)).1.watch := by rw [watch, watch, hgaps, hlabels]
      unfold scan scanLabels
      dsimp only
      rw [Watch.changeAll_append hnow]
      split
      next => exact ⟨rfl, hraised⟩
      next =>
        split
        next => exact ih hraised hrest
        next =>
          split
          next => exact ⟨hsent ▸ rfl, by rwa [hgaps, hlabels]⟩
          next =>
            rw [← hsent]
            exact ih (by rwa [hgaps, hlabels]) hrest

/-- A watch accepts what a discharge does to the label of its node, and ends with the labels and
the detector that the discharge leaves. -/
theorem changeAll_newLabels (h : s.gaps.Tracks s.labels) (hn : g.nodeCount < Word.largest)
    (sink v : g.Node) :
    Watch.changeAll v (s.newLabels sink v) s.watch = .ok () (s.discharge sink v).watch := by
  have hcs : ∀ c ∈ s.candidates v, c.1 < g.nodeCount :=
    fun c hc => (mem_candidates_iff.mp hc).2.2.1
  obtain ⟨hscan, htracks⟩ := changeAll_scanLabels h hn hcs sink v
  unfold newLabels discharge
  dsimp only
  rw [Watch.changeAll_append hscan]
  split
  · exact bind_of_ok (change_watch htracks hn v le_rfl)
  · rfl

/-- Between two discharges labels are in range, and what the next discharge or recomputing the
labels does to them and to the detector, a watch accepts. -/
structure InRange (sink : g.Node) (s : Fifo g) : Prop where
  label_le : ∀ v : g.Node, s.labels[v] ≤ g.nodeCount
  reset : ∀ labels : Vector Nat g.nodeCount,
    Watch.reset (.of s.gaps labels) = .ok () (.of (s.gaps.reset labels.toArray) labels)
  discharge : ∀ v queue, s.queue.pop? = some (v, queue) →
    Watch.changeAll v ((s.taken v queue).newLabels sink v) s.watch =
      .ok () ((s.taken v queue).discharge sink v).watch

theorem Between.inRange {threshold : Nat} (h : Between threshold source sink s t)
    (hne : source ≠ sink) (hn : g.nodeCount < Word.largest) : t.InRange sink := by
  have hkept := h.kept hne
  exact ⟨hkept.le_nodeCount, Watch.reset_of t.gaps,
    fun v queue _ => changeAll_newLabels (s := t.taken v queue) hkept.tracks hn sink v⟩

end Fifo

namespace Round

variable {r : Round g} {vs : List g.Node}

/-- Without counters there is no detector. -/
def detector (r : Round g) : GapDetector g.nodeCount := r.counts.elim .none .counts

def watch (r : Round g) : Watch g.nodeCount := .of r.detector r.labels

/-- Only a label below the sentinel is reported to have lost its last node. -/
theorem move_watch (r : Round g) (v : g.Node) (label : Nat) :
    ∃ emptied, Watch.move v label r.watch = .ok emptied (r.setLabel v label).watch ∧
      (r.setLabel v label).emptied.toList =
        (if emptied then r.emptied.toList ++ [r.labels[v]] else r.emptied.toList) ∧
      (emptied = true → r.labels[v] < g.nodeCount) := by
  rcases r with ⟨p, staged, added, discovered, found, counts, emptied, effort⟩
  cases counts with
  | none => exact ⟨false, Watch.move_of .none p.labels v label, rfl, nofun⟩
  | some c =>
      refine ⟨(c.move p.labels[v] label).2, Watch.move_of (.counts c) p.labels v label, ?_,
        fun hempty => ?_⟩
      · unfold setLabel
        dsimp only
        split <;> simp
      · by_contra hge
        have hfalse : (c.move p.labels[v] label).2 = false := dif_neg hge
        exact Bool.false_ne_true (hfalse.symm.trans hempty)

theorem gap?_eq (r : Round g) :
    r.gap? = (r.emptied.toList.filter r.detector.isEmptyAt).min? := by
  unfold gap? detector
  cases r.counts with
  | none => exact (congrArg List.min? (List.filter_false r.emptied.toList)).symm
  | some c => rfl

/-- A watch accepts what closing the lowest gap does. -/
theorem closeLowest_watch (hn : g.nodeCount < Word.largest)
    (hemptied : ∀ label ∈ r.emptied.toList, label < g.nodeCount) :
    Watch.closeLowest r.emptied.toList r.watch = .ok () r.closeGap.watch := by
  refine (bind_of_ok (Watch.emptyAmong_of r.detector r.labels hemptied)).trans ?_
  rw [← gap?_eq]
  cases hcounts : r.counts with
  | none =>
      have hgap : r.gap? = none := by rw [gap?, hcounts]
      have hclosed : r.closeGap.watch = r.watch := by simp [closeGap, hcounts, watch, detector]
      rw [hgap, hclosed]
      rfl
  | some c =>
      cases hgap : r.gap? with
      | none =>
          have hclosed : r.closeGap.watch = r.watch := by
            simp [closeGap, hcounts, hgap, watch, detector]
          rw [hclosed]
          rfl
      | some gap =>
          have hclosed : r.closeGap.watch = (r.retireAbove c gap).watch := by
            simp only [closeGap, hcounts, hgap]
            rfl
          have hlt : gap < g.nodeCount := by
            rw [gap?_eq] at hgap
            exact hemptied gap (List.mem_of_mem_filter (List.min?_mem hgap))
          have hdetector : r.detector = .counts c := by rw [detector, hcounts]; rfl
          rw [hclosed, hdetector]
          exact bind_of_ok (Watch.retire_of (fun u => Gap.Counts.lt_of_mem_nodesAbove)
            (Fin.pos g.source) (hlt.trans hn))

variable [Quantity K]

/-- The labels that change when nodes are committed, each with its node. -/
def newLabels (r : Round g) (vs : List g.Node) : List (Nat × Nat) :=
  vs.filterMap fun v =>
    if r.nextLabel v = r.labels[v] then none else some (v.val, r.nextLabel v)

omit [Quantity K] in
theorem newLabels_cons (r : Round g) (v : g.Node) (vs : List g.Node) :
    r.newLabels (v :: vs) =
      if r.nextLabel v = r.labels[v] then r.newLabels vs
      else (v.val, r.nextLabel v) :: r.newLabels vs := by
  unfold newLabels
  rw [List.filterMap_cons]
  split
  next heq => rw [if_pos (by simpa using heq)]
  next heq =>
    split at heq
    next => cases heq
    next hne =>
      obtain rfl := Option.some.inj heq
      rw [if_neg hne]

theorem newLabels_commit (hv : v ∉ vs) (r : Round g) :
    (r.commit v).newLabels vs = r.newLabels vs := by
  refine List.filterMap_congr fun u hu => ?_
  have hne : u ≠ v := ne_of_mem_of_not_mem hu hv
  simp only [nextLabel_commit hne, labels_commit, if_neg hne]

/-- Committing a node that keeps its label changes no label. -/
theorem commit_of_same (hsame : r.nextLabel v = r.labels[v]) :
    (r.commit v).watch = r.watch ∧ (r.commit v).emptied = r.emptied := by
  have hcommit : r.commit v = r.settle v := by rw [commit, if_pos hsame]
  rw [hcommit]
  exact ⟨rfl, rfl⟩

/-- A watch accepts what committing a node does to its label. -/
theorem commit_of_changed (hnew : r.nextLabel v ≠ r.labels[v]) :
    ∃ emptied, Watch.move v (r.nextLabel v) r.watch = .ok emptied (r.commit v).watch ∧
      (r.commit v).emptied.toList =
        (if emptied then r.emptied.toList ++ [r.labels[v]] else r.emptied.toList) ∧
      (emptied = true → r.labels[v] < g.nodeCount) := by
  have hcommit : r.commit v = (r.setLabel v (r.nextLabel v)).settle v := by
    rw [commit, if_neg hnew]
  rw [hcommit]
  exact move_watch r v (r.nextLabel v)

/-- A watch accepts what committing nodes does to their labels, and notices which labels lose
their last node. -/
theorem moveAll_newLabels (hnodup : vs.Nodup) (hle : ∀ v ∈ vs, r.nextLabel v ≤ g.nodeCount) :
    ∃ emptied, Watch.moveAll (r.newLabels vs) r.watch =
        .ok emptied (vs.foldl (fun r v => r.commit v) r).watch ∧
      (vs.foldl (fun r v => r.commit v) r).emptied.toList = r.emptied.toList ++ emptied ∧
      ∀ label ∈ emptied, label < g.nodeCount := by
  induction vs generalizing r with
  | nil => exact ⟨[], rfl, (List.append_nil _).symm, nofun⟩
  | cons v vs ih =>
      obtain ⟨hv, hnodup⟩ := List.nodup_cons.mp hnodup
      have hrest : ∀ u ∈ vs, (r.commit v).nextLabel u ≤ g.nodeCount := by
        intro u hu
        rw [nextLabel_commit (ne_of_mem_of_not_mem hu hv)]
        exact hle u (List.mem_cons_of_mem v hu)
      obtain ⟨others, hothers, hemptied, hlt⟩ := ih hnodup hrest
      rw [newLabels_commit hv] at hothers
      rw [List.foldl_cons, newLabels_cons, hemptied]
      by_cases hsame : r.nextLabel v = r.labels[v]
      · obtain ⟨hwatch, hkept⟩ := commit_of_same hsame
        rw [hwatch] at hothers
        exact ⟨others, by rwa [if_pos hsame], by rw [hkept], hlt⟩
      · obtain ⟨emptied, hmove, hlist, hbelow⟩ := commit_of_changed hsame
        refine ⟨if emptied then r.labels[v] :: others else others, ?_, ?_, fun label hlabel => ?_⟩
        · rw [if_neg hsame, Watch.moveAll, if_neg (hle v List.mem_cons_self).not_gt]
          exact (bind_of_ok (Watch.labelOf_of _ _ v)).trans
            ((bind_of_ok hmove).trans (bind_of_ok hothers))
        · rw [hlist]
          split <;> simp
        · split at hlabel
          next hempty =>
            rcases List.mem_cons.mp hlabel with rfl | hlabel
            · exact hbelow hempty
            · exact hlt label hlabel
          next => exact hlt label hlabel

/-- What a round decides in the end a watch accepts, and it ends with the labels and the detector
that the round leaves. -/
theorem changeTogether_newLabels (hnodup : vs.Nodup) (hemptied : r.emptied = #[])
    (hn : g.nodeCount < Word.largest) (hle : ∀ v ∈ vs, r.nextLabel v ≤ g.nodeCount) :
    Watch.changeTogether (r.newLabels vs) r.watch =
      .ok () (vs.foldl (fun r v => r.commit v) r).closeGap.watch := by
  obtain ⟨emptied, hmoves, hlist, hlt⟩ := moveAll_newLabels hnodup hle
  rw [hemptied, Array.toList_empty, List.nil_append] at hlist
  refine (bind_of_ok hmoves).trans ?_
  rw [← hlist] at hlt ⊢
  exact closeLowest_watch hn hlt

/-! ## The labels that discharges stage -/

theorem next_visit_le {label : Nat} (s : Scan g) (sink : g.Node) {d : g.DartOf}
    (hd : d ∈ g.darts v) : (s.visit sink v label d).next ≤ s.next := by
  have hlooks := s.looks_visit sink label hd
  revert hlooks
  generalize s.visit sink v label d = t
  intro hlooks
  cases hlooks with
  | notes => exact Nat.min_le_left _ _
  | _ => exact le_rfl

theorem next_scan_le (sink v : g.Node) (label : Nat) (left : K) (r : Round g) :
    (scan sink v label left r).next ≤ g.nodeCount :=
  List.foldlRecOn (motive := fun s : Scan g => s.next ≤ g.nodeCount) _ _ le_rfl
    fun s hs _ hd => (next_visit_le s sink hd).trans hs

theorem label_climb_le {label : Nat} (left : K) (r : Round g) (hlabel : label ≤ g.nodeCount) :
    (climb sink v label left r).2.2 ≤ g.nodeCount := by
  induction label, left, r using climb.induct sink v with
  | case1 label left r s hdone =>
      rw [climb, if_pos hdone]
      exact hlabel
  | case2 label left r s hgoes hnext ih =>
      rw [climb, if_neg hgoes, dif_pos hnext]
      exact ih hnext.2.le
  | case3 label left r s hgoes hnext =>
      rw [climb, if_neg hgoes, dif_neg hnext]
      exact next_scan_le sink v label left r

/-- A node that was discharged has staged a label up to the sentinel. -/
theorem staged_foldl_discharge_le {u : g.Node} (hlabels : ∀ v : g.Node, r.labels[v] ≤ g.nodeCount)
    (hu : u ∈ vs ∨ r.staged[u] ≤ g.nodeCount) (sink : g.Node) :
    (vs.foldl (fun r v => r.discharge sink v) r).staged[u] ≤ g.nodeCount := by
  induction vs generalizing r with
  | nil => exact hu.resolve_left List.not_mem_nil
  | cons v vs ih =>
      have hsame := (untouched_discharge sink v r).labels_eq
      rw [List.foldl_cons]
      refine ih (fun w => hsame ▸ hlabels w) ?_
      simp only [staged_discharge, Vector.getElem_put]
      by_cases heq : u = v
      · rw [if_pos heq]
        exact Or.inr (label_climb_le _ r (hlabels v))
      · rw [if_neg heq]
        exact hu.imp_left fun hmem => (List.mem_cons.mp hmem).resolve_left heq

end Round

namespace Rounds

variable [Quantity K] {s t : Rounds g}

/-- Between two rounds labels are in range, and what the next round or recomputing the labels
does to them and to the detector, a watch accepts. -/
structure InRange (sink : g.Node) (s : Rounds g) : Prop where
  label_le : ∀ v : g.Node, s.labels[v] ≤ g.nodeCount
  reset : ∀ labels : Vector Nat g.nodeCount,
    Watch.reset (.of s.detector labels) = .ok () (.of (s.detector.reset labels.toArray) labels)
  staged_le : ∀ v ∈ s.workingSet.toList, (s.swept sink).staged[v] ≤ g.nodeCount
  round : Watch.changeTogether ((s.swept sink).newLabels s.workingSet.toList)
    (s.swept sink).watch =
      .ok () (s.workingSet.toList.foldl (fun r v => r.commit v) (s.swept sink)).closeGap.watch

theorem staged_swept_le (hlabels : ∀ v : g.Node, s.labels[v] ≤ g.nodeCount)
    (hv : v ∈ s.workingSet.toList) (sink : g.Node) : (s.swept sink).staged[v] ≤ g.nodeCount :=
  Round.staged_foldl_discharge_le (r := s.opening) hlabels (Or.inl hv) sink

theorem Between.label_le (h : Between source sink s t) (hne : source ≠ sink)
    (hadded : ∀ v : g.Node, s.added[v] = 0) :
    t.emptied = #[] ∧ ∀ v : g.Node, t.labels[v] ≤ g.nodeCount := by
  induction h with
  | started journal hrelabel =>
      obtain ⟨⟨-, -, hexact⟩, ⟨-, -, -, hemptied⟩, -⟩ := relabel_eq_ok hne hrelabel
      exact ⟨hemptied, hexact.le_nodeCount⟩
  | @discharged t p q ht hdischarge hrenew ih =>
      have hkept := ht.kept hne hadded
      obtain ⟨hround, -⟩ := round_eq_ok hkept.lists.cursor_eq hdischarge hrenew
      rw [hround]
      refine ⟨Round.emptied_ending _ _ _, Round.labels_ending_le hkept.nodup
        ((emptied_swept sink t).trans ih.1) (fun v => ?_) (fun v hv => ?_) sink⟩
      · exact (labels_swept sink t) ▸ ih.2 v
      · exact staged_swept_le ih.2 hv sink
  | relabelled journal _ hrelabel ih =>
      obtain ⟨⟨-, -, hexact⟩, ⟨-, -, -, hemptied⟩, -⟩ := relabel_eq_ok hne hrelabel
      exact ⟨hemptied.trans ih.1, hexact.le_nodeCount⟩
  | reordered _ _ _ ih => exact ih

theorem Between.inRange (h : Between source sink s t) (hne : source ≠ sink)
    (hadded : ∀ v : g.Node, s.added[v] = 0) (hn : g.nodeCount < Word.largest) :
    t.InRange sink := by
  obtain ⟨hemptied, hlabels⟩ := h.label_le hne hadded
  have hstaged : ∀ v ∈ t.workingSet.toList, (t.swept sink).staged[v] ≤ g.nodeCount :=
    fun v hv => staged_swept_le hlabels hv sink
  refine ⟨hlabels, Watch.reset_of t.detector, hstaged, ?_⟩
  refine Round.changeTogether_newLabels (h.kept hne hadded).nodup
    ((emptied_swept sink t).trans hemptied) hn fun v hv => ?_
  exact Round.nextLabel_le ((labels_swept sink t) ▸ hlabels v) (hstaged v hv)

end Rounds

end PushRelabel
