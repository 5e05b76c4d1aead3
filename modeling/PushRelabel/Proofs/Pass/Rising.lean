import PushRelabel.Proofs.Distances
import PushRelabel.Proofs.Pass.BetweenDischarges
import PushRelabel.Proofs.Pass.FifoGaps

/-! # Labels only grow

Valid labels are lower bounds of distances, so a search finds labels that are no lower, even if it
is interrupted: a label is given only to a node that can send to one with the label before it.
Discharges and the closing of gaps raise labels as well. So from the first relabelling of a pass on
no label ever gets lower, and a node that has the sentinel is not discharged any more.
-/

namespace PushRelabel

section Labels

variable {n : Nat} {a b c : Vector Nat n}

/-- No label gets lower, and none gets above the sentinel. -/
def Rises (a b : Vector Nat n) : Prop := ∀ v : Fin n, a[v] ≤ b[v] ∧ b[v] ≤ n

theorem Rises.trans (hab : Rises a b) (hbc : Rises b c) : Rises a c := fun v =>
  ⟨(hab v).1.trans (hbc v).1, (hbc v).2⟩

theorem Rises.eq_sentinel (h : Rises a b) {v : Fin n} (hv : a[v] = n) : b[v] = n :=
  (h v).2.antisymm (hv.ge.trans (h v).1)

/-- Labels that rise one after the other, from the first to the last. -/
inductive Course : Vector Nat n → List (Vector Nat n) → Vector Nat n → Prop
  | nil (a : Vector Nat n) : Course a [] a
  | cons {a b c : Vector Nat n} {ls : List (Vector Nat n)} (h : Rises a b) (hrest : Course b ls c) :
      Course a (b :: ls) c

namespace Course

variable {ls ms : List (Vector Nat n)}

theorem append (h : Course a ls b) (h' : Course b ms c) : Course a (ls ++ ms) c := by
  induction h with
  | nil => exact h'
  | cons hrises _ ih => exact .cons hrises (ih h')

theorem rises (h : Course a ls b) (ha : Rises a a) : Rises a b := by
  induction h with
  | nil a => exact ha
  | cons hrises _ ih => exact hrises.trans (ih fun v => ⟨le_rfl, (hrises v).2⟩)

theorem pairwise (h : Course a ls b) : (a :: ls).Pairwise Rises := by
  induction h with
  | nil a => exact List.pairwise_singleton _ a
  | cons hrises _ ih =>
      refine List.pairwise_cons.mpr ⟨fun l hl => ?_, ih⟩
      rcases List.mem_cons.mp hl with rfl | hl
      · exact hrises
      · exact hrises.trans ((List.pairwise_cons.mp ih).1 l hl)

end Course

end Labels

/-! ## Searches -/

namespace Search

variable {K : Type} [Quantity K] {g : FlowGraph K} {flow : g.Flow} {source sink : g.Node}
  {batch distance fuel : Nat} {running : Bool} {pending : List g.Node} {p : Progress g.nodeCount}
  {w : WorkingSet g.Node} {search : Search g.nodeCount} {labels old : Vector Nat g.nodeCount}

/-- A node has its label from one that it can send to, so valid labels are no higher. -/
theorem InLayer.rises (h : InLayer flow source sink distance pending p)
    (hvalid : g.ValidLabels flow old source sink) : Rises old p.labels := by
  intro v
  refine ⟨?_, h.le_nodeCount v⟩
  rcases (h.le_nodeCount v).lt_or_eq with hlt | heq
  · exact hvalid.le_of_descends h.nearer h.source_eq.ge hlt
  · rw [heq]
    exact hvalid.le_nodeCount v

theorem leaves_consume_rises (hlists : w.Lists pending)
    (hlayer : InLayer flow source sink distance pending p)
    (hvalid : g.ValidLabels flow old source sink) :
    Leaves (fun r => Rises old r.2.labels)
      (WorkingSet.consume batch running (visitNode g flow (distance + 1)) (w, p)) := by
  refine WorkingSet.leaves_consume.mono fun r hr => ?_
  obtain ⟨-, vs, ⟨rest, hrest⟩, hlast⟩ := hr
  rw [hlists.cursor_eq, List.drop_zero, hlists.toList_eq] at hrest
  rw [hlast]
  rw [← hrest] at hlayer
  exact (hlayer.foldl_visitNode_append vs).rises hvalid

omit [Quantity K] in
theorem leaves_nextLayer_rises (h : Rises old p.labels) :
    Leaves (fun r => Rises old r.2.labels) (nextLayer g (w, p)) := by
  unfold nextLayer
  refine Leaves.get (Leaves.modify ?_)
  exact Leaves.onSet (leaves_true _) fun _ _ => h

theorem leaves_explore_rises (hlists : w.Lists pending)
    (hlayer : InLayer flow source sink distance pending p) (hfuel : distance + fuel = g.nodeCount)
    (hvalid : g.ValidLabels flow old source sink) :
    Leaves (fun r => Rises old r.2.labels) (explore g flow batch running fuel distance (w, p)) := by
  induction fuel generalizing distance pending w p with
  | zero => exact leaves_throw _ (hlayer.rises hvalid)
  | succ fuel ih =>
      unfold explore
      refine Leaves.bind (leaves_consume_rises hlists hlayer hvalid) fun _ r hconsume hr => ?_
      rcases r with ⟨w₁, p₁⟩
      obtain ⟨-, -, rfl⟩ := WorkingSet.consume_eq_ok hlists.cursor_eq hconsume
      rw [hlists.toList_eq] at hr ⊢
      refine Leaves.bind (leaves_nextLayer_rises hr) fun _ r hnextLayer hr => Leaves.get ?_
      rcases r with ⟨w₂, p₂⟩
      obtain ⟨hlists₂, -, rfl⟩ := nextLayer_eq_ok hnextLayer
      split
      · exact leaves_pure _ hr
      · cases fuel with
        | zero => exact leaves_throw _ hr
        | succ fuel =>
            exact ih hlists₂ (hlayer.foldl_visitNode.nextLayer (by omega)) (by omega)

/-- However a search ends, its labels are no lower than any valid ones. -/
theorem leaves_run_rises (hne : source ≠ sink) (hvalid : g.ValidLabels flow old source sink) :
    Leaves (fun r => Rises old r.2) (run g flow running source sink (search, labels)) := by
  have hstart : InLayer flow source sink 0 [sink] (start g source sink) := inLayer_start hne
  unfold run
  let rises (r : State g.nodeCount) : Prop := Rises old r.2.labels
  refine Leaves.get (Leaves.onPart (R := rises) ?_ fun _ hr => hr)
  unfold exploreFrom
  refine Leaves.modify (Leaves.bind (P := rises) ?_ fun _ r hpush _ => ?_)
  · exact Leaves.onSet (leaves_true _) fun _ _ => hstart.rises hvalid
  · rcases r with ⟨w₁, p₁⟩
    obtain ⟨hpushed, rfl⟩ := onSet_eq_ok_iff.mp hpush
    obtain ⟨hlists, -⟩ := WorkingSet.lists_of_push hpushed
    exact leaves_explore_rises hlists hstart (Nat.zero_add _) hvalid

end Search

theorem Pass.leaves_relabel_rises {K : Type} [Quantity K] {g : FlowGraph K} {source sink : g.Node}
    {p : Pass g} (hne : source ≠ sink) (hvalid : g.ValidLabels p.flow p.labels source sink) :
    Leaves (fun q : Pass g => Rises p.labels q.labels) (Pass.relabel source sink p) := by
  unfold Pass.relabel
  refine Leaves.modify (Leaves.get (Leaves.bind (Leaves.onPart
    (Search.leaves_run_rises hne hvalid) fun _ hr => hr) fun _ q _ hq => ?_))
  exact hq

/-! ## Discharges -/

namespace Fifo

variable {K : Type} {g : FlowGraph K} {s t : Fifo g} {v : g.Node} {label : Nat} {emptied : Bool}

theorem Moved.rises (h : s.Moved v label t emptied) (hlabel : label ≤ g.nodeCount)
    (hbound : ∀ u : g.Node, s.labels[u] ≤ g.nodeCount) :
    Rises (s.labels.put v label) t.labels := by
  intro u
  refine ⟨?_, h.le_nodeCount hlabel hbound u⟩
  cases emptied with
  | false => rw [h.kept rfl]
  | true =>
      rw [h.retired rfl u]
      split
      next habove => exact habove.2.le
      next => exact le_rfl

/-- The labels after a node has got another one, and after the gap that it may leave is closed. -/
def setCourse (s : Fifo g) (v : g.Node) (label : Nat) : List (Vector Nat g.nodeCount) :=
  [s.labels.put v label, (s.setLabel v label).1.labels]

def raiseCourse (s : Fifo g) (v : g.Node) (label : Nat) : List (Vector Nat g.nodeCount) :=
  if s.labels[v] < label then s.setCourse v label else []

variable [Quantity K] {start : Preflow g} {source sink : g.Node}

/-- The labels after each of their changes in a scan. -/
def scanCourse (sink v : g.Node) :
    List (Nat × g.DartOf) → Fifo g → List (Vector Nat g.nodeCount)
  | [], _ => []
  | (label, d) :: rest, s =>
      let (t, retired) := s.raiseLabel v (label + 1)
      s.raiseCourse v (label + 1) ++
        if retired then []
        else if g.residual t.flow d ≤ 0 then scanCourse sink v rest t
        else
          let t := t.send sink v d
          if t.excess[v] ≤ 0 then [] else scanCourse sink v rest t

/-- The labels after each of their changes in a discharge. -/
def dischargeCourse (sink v : g.Node) (s : Fifo g) : List (Vector Nat g.nodeCount) :=
  let (t, retired) := scan sink v (s.candidates v) s
  scanCourse sink v (s.candidates v) s ++
    if retired = false ∧ 0 < t.excess[v] then t.setCourse v g.nodeCount else []

theorem labels_send (s : Fifo g) (sink v : g.Node) (d : g.DartOf) :
    (s.send sink v d).labels = s.labels := by
  unfold send
  dsimp only
  split
  · exact Preflow.labels_send _ _ _ _
  · rw [toPass_enqueue]
    exact Preflow.labels_send _ _ _ _

namespace Kept

theorem course_setLabel {busy : Option g.Node} (h : s.Kept start source sink busy)
    (hle : s.labels[v] ≤ label) (hlabel : label ≤ g.nodeCount) :
    Course s.labels (s.setCourse v label) (s.setLabel v label).1.labels := by
  have hset : Rises s.labels (s.labels.put v label) := by
    intro u
    rw [Vector.getElem_put]
    split
    next heq => exact heq ▸ ⟨hle, hlabel⟩
    next => exact ⟨le_rfl, h.le_nodeCount u⟩
  have hmoved := moved_setLabel h.tracks v label
  exact .cons hset (.cons (hmoved.rises hlabel h.le_nodeCount) (.nil _))

theorem course_raiseLabel {busy : Option g.Node} (h : s.Kept start source sink busy)
    (hlabel : label ≤ g.nodeCount) :
    Course s.labels (s.raiseCourse v label) (s.raiseLabel v label).1.labels := by
  unfold raiseCourse Fifo.raiseLabel
  split
  next hlt => exact h.course_setLabel hlt.le hlabel
  next => exact .nil _

theorem course_scan {cs : List (Nat × g.DartOf)} (h : s.Kept start source sink (some v))
    (hv : v ≠ source) (hcs : ∀ c ∈ cs, c.2 ∈ g.darts v ∧ c.2.other ≠ source ∧ c.1 < g.nodeCount) :
    Course s.labels (scanCourse sink v cs s) (Fifo.scan sink v cs s).1.labels := by
  induction cs generalizing s with
  | nil => exact .nil _
  | cons c cs ih =>
      rcases c with ⟨label, d⟩
      obtain ⟨hd, hother, hlt⟩ := hcs _ List.mem_cons_self
      have hrest := fun c hc => hcs c (List.mem_cons_of_mem _ hc)
      have hraise : Course s.labels (s.raiseCourse v (label + 1))
          (s.raiseLabel v (label + 1)).1.labels := h.course_raiseLabel hlt
      have hraised := (h.raiseLabel v (label + 1) hlt).1
      unfold scanCourse Fifo.scan
      rcases hresult : s.raiseLabel v (label + 1) with ⟨t, retired⟩
      rw [hresult] at hraise hraised
      refine hraise.append ?_
      dsimp only
      split
      next => exact .nil _
      next =>
        split
        next => exact ih hraised hrest
        next =>
          have hsent := hraised.send hd hv hother
          rw [← labels_send t sink v d]
          split
          next => exact .nil _
          next => exact ih hsent hrest

theorem course_discharge (h : s.Kept start source sink (some v)) (hv : v ≠ source) :
    Course s.labels (dischargeCourse sink v s) (s.discharge sink v).labels := by
  have hscan := h.course_scan hv fun _ => h.of_mem_candidates
  have hscanned := (h.scan_candidates hv).1
  unfold dischargeCourse Fifo.discharge
  refine hscan.append ?_
  dsimp only
  split
  next => exact hscanned.course_setLabel (hscanned.le_nodeCount v) le_rfl
  next => exact .nil _

end Kept

/-! ## Steps -/

theorem leaves_relabel_rises (hne : source ≠ sink)
    (hvalid : g.ValidLabels s.flow s.labels source sink) :
    Leaves (fun t : Fifo g => Rises s.labels t.labels) (relabel source sink s) := by
  unfold relabel
  refine Leaves.bind (Leaves.onPart (Pass.leaves_relabel_rises hne hvalid) fun _ hp => hp)
    fun _ t _ ht => leaves_modify ?_
  rw [toPass_foldl_enqueue]
  exact ht

/-- The labels after each of their changes in a step, and what the step leaves. -/
def stepCourse (threshold : Nat) (source sink : g.Node) (s : Fifo g) :
    List (Vector Nat g.nodeCount) :=
  (match s.queue.pop? with
    | none => []
    | some (v, queue) =>
        if s.next? = some v then (s.taken v queue).dischargeCourse sink v else []) ++
  [(leftBy (step threshold source sink s)).labels]

omit [Quantity K] in
theorem label_lt_of_next (h : s.next? = some v) : s.labels[v] < g.nodeCount := by
  unfold next? at h
  cases hpop : s.queue.pop? with
  | none => simp [hpop] at h
  | some next =>
      simp only [hpop, Option.ite_none_right_eq_some, Option.some.injEq] at h
      obtain ⟨⟨hlabel, -⟩, rfl⟩ := h
      exact hlabel

theorem labels_leftBy_of_next_eq_none (threshold : Nat) (source sink : g.Node)
    (h : s.next? = none) : (leftBy (step threshold source sink s)).labels = s.labels := by
  rcases step_of_next_eq_none threshold h with hstep | ⟨v, queue, -, hstep | hstep⟩
  all_goals
    rw [hstep]
    rfl

end Fifo

namespace Fifo

/-! ## Runs -/

variable {K : Type} [AddCommGroup K] [LinearOrder K] [IsOrderedAddMonoid K] {p : Problem K}
  {g : FlowGraph K} {giver source sink : g.Node} {s t : Fifo g} {threshold fuel : Nat}

/-- What a pass from a source to a sink may start from. -/
structure MayStart (giver source sink : g.Node) (s : Fifo g) : Prop where
  proper : g.Proper
  ne : source ≠ sink
  giver_eq : giver = source ∨ giver = sink
  fits : g.Fits s.flow
  excess_nonneg : ∀ v : g.Node, v ≠ giver → 0 ≤ s.excess[v]

theorem Between.validLabels (h : Between threshold source sink s t)
    (hs : s.MayStart giver source sink) : g.ValidLabels t.flow t.labels source sink :=
  (h.sound hs.proper hs.ne hs.giver_eq hs.fits hs.excess_nonneg).validLabels

omit [IsOrderedAddMonoid K] in
theorem Between.rises_refl (h : Between threshold source sink s t) (hne : source ≠ sink) :
    Rises t.labels t.labels := fun v => ⟨le_rfl, (h.kept hne).le_nodeCount v⟩

/-- Labels do not get lower in a step. -/
theorem Between.course_step (h : Between threshold source sink s t)
    (hs : s.MayStart giver source sink) :
    Course t.labels (t.stepCourse threshold source sink)
      (leftBy (Fifo.step threshold source sink t)).labels := by
  unfold stepCourse
  cases hnext : t.next? with
  | none =>
      have hidle : Course t.labels [t.labels] t.labels := .cons (h.rises_refl hs.ne) (.nil _)
      rw [labels_leftBy_of_next_eq_none threshold source sink hnext]
      cases t.queue.pop? with
      | none => exact hidle
      | some next => exact hidle
  | some v =>
      obtain ⟨queue, hpop, hstep⟩ := step_of_next threshold hnext
      obtain ⟨hsource, -, htaken⟩ := (h.kept hs.ne).taken hpop
      have hdischarged := h.discharged hpop (label_lt_of_next hnext)
      -- after the discharge the labels may be recomputed, and that may be interrupted
      have hleft : Leaves (fun r : Fifo g => Rises ((t.taken v queue).discharge sink v).labels
          r.labels) (Fifo.step threshold source sink t) := by
        rw [hstep]
        refine Leaves.modify (Leaves.get ?_)
        split
        next =>
          refine Leaves.bind (leaves_relabel_rises hs.ne (hdischarged.validLabels hs))
            fun _ r _ hr => leaves_pure _ hr
        next => exact leaves_pure _ (hdischarged.rises_refl hs.ne)
      rw [hpop]
      dsimp only
      rw [if_pos rfl]
      exact (htaken.course_discharge hsource).append
        (.cons (leaves_iff_leftBy.mp hleft) (.nil _))

/-- The labels after each of their changes in a loop. -/
def courseFrom (threshold fuel : Nat) (source sink : g.Node) (s : Fifo g) :
    List (Vector Nat g.nodeCount) :=
  (visited (step threshold source sink) fuel s).flatMap (stepCourse threshold source sink)

theorem Between.course_visited (h : Between threshold source sink s t)
    (hs : s.MayStart giver source sink) (fuel : Nat) :
    ∃ last, Course t.labels (courseFrom threshold fuel source sink t) last := by
  unfold courseFrom
  induction fuel generalizing t with
  | zero => exact ⟨_, .nil _⟩
  | succ fuel ih =>
      have hfirst := h.course_step hs
      unfold visited
      rw [List.flatMap_cons]
      cases hstep : Fifo.step threshold source sink t with
      | ok again r =>
          rw [hstep] at hfirst
          cases again with
          | true =>
              obtain ⟨last, hrest⟩ := ih (h.step hstep)
              exact ⟨last, hfirst.append hrest⟩
          | false => exact ⟨_, hfirst.append (.nil _)⟩
      | error e r =>
          rw [hstep] at hfirst
          exact ⟨_, hfirst.append (.nil _)⟩

theorem Between.rises_of_mem_visited {r : Fifo g} (h : Between threshold source sink s t)
    (hs : s.MayStart giver source sink)
    (hr : r ∈ visited (Fifo.step threshold source sink) fuel t) :
    Between threshold source sink s r ∧ Rises t.labels r.labels := by
  apply invariant_of_mem_visited (fun r => Between threshold source sink s r ∧
    Rises t.labels r.labels) _ ⟨h, h.rises_refl hs.ne⟩ hr
  rintro p q ⟨hp, hrises⟩ hstep
  have hcourse := hp.course_step hs
  rw [hstep] at hcourse
  exact ⟨hp.step hstep, hrises.trans (hcourse.rises (hp.rises_refl hs.ne))⟩

/-- From the first relabelling of a pass on no label ever gets lower, and a node that has got the
sentinel keeps it: not in a discharge, not when a gap is closed, and not when the labels are
recomputed, even if that is interrupted. Such a node is not discharged any more. -/
theorem labels_rise (hbuild : p.build = .ok g) (hne : source ≠ sink)
    (hgiver : giver = source ∨ giver = sink) (hfits : g.Fits s.flow)
    (hexcess : ∀ v : g.Node, v ≠ giver → 0 ≤ s.excess[v]) (hbegin : begin source sink s = .ok () t)
    (threshold fuel : Nat) :
    ((t.labels :: courseFrom threshold fuel source sink t).Pairwise fun a b => ∀ v : g.Node,
      a[v] ≤ b[v] ∧ (a[v] = g.nodeCount → b[v] = g.nodeCount)) ∧
    ∀ before q after, visited (step threshold source sink) fuel t = before ++ q :: after →
      ∀ v : g.Node, q.labels[v] = g.nodeCount →
        ∀ r ∈ q :: after, r.labels[v] = g.nodeCount ∧ r.next? ≠ some v := by
  have hs : s.MayStart giver source sink :=
    ⟨Problem.proper_of_build hbuild, hne, hgiver, hfits, hexcess⟩
  have hbetween : Between threshold source sink s t := between_of_begin hbegin
  constructor
  · obtain ⟨last, hcourse⟩ := hbetween.course_visited hs fuel
    exact hcourse.pairwise.imp fun hrises v => ⟨(hrises v).1, hrises.eq_sentinel⟩
  · intro before q after hsplit v hv r hr
    have hq : q ∈ visited (step threshold source sink) fuel t := by simp [hsplit]
    obtain ⟨fuel', hagain⟩ := exists_visited_eq hsplit
    rw [← hagain] at hr
    have hrises := ((hbetween.rises_of_mem_visited hs hq).1.rises_of_mem_visited hs hr).2
    have hlabel := hrises.eq_sentinel hv
    exact ⟨hlabel, fun hnext => (label_lt_of_next hnext).ne hlabel⟩

/-- The labels in the first pass if they are recomputed after each discharge. -/
def bottleneckCourse? : Option (List (List Nat)) :=
  match Problem.bottleneck.build with
  | .error _ => none
  | .ok g =>
      match begin g.source g.target (firstPassOver g) with
      | .ok _ t => some ((t.labels :: courseFrom 0 100 g.source g.target t).map Vector.toList)
      | .error _ _ => none

theorem bottleneckCourse?_eq : bottleneckCourse? = some ([4, 3, 1, 6, 0, 2] ::
    [6, 3, 1, 6, 0, 2] :: List.replicate 6 [6, 6, 1, 6, 0, 2]) := by
  cbv

/-- Node 0 fills its only arc, and the next search does not find it any more. -/
theorem labels_rise_bottleneck : ∃ (g : FlowGraph ℤ) (t : Fifo g),
    Problem.bottleneck.build = .ok g ∧ begin g.source g.target (firstPassOver g) = .ok () t ∧
    (t.labels :: courseFrom 0 100 g.source g.target t).map Vector.toList =
      [4, 3, 1, 6, 0, 2] :: [6, 3, 1, 6, 0, 2] :: List.replicate 6 [6, 6, 1, 6, 0, 2] ∧
    (t.labels :: courseFrom 0 100 g.source g.target t).Pairwise fun a b => ∀ v : g.Node,
      a[v] ≤ b[v] ∧ (a[v] = g.nodeCount → b[v] = g.nodeCount) := by
  have hcourse := bottleneckCourse?_eq
  unfold bottleneckCourse? at hcourse
  cases hbuild : Problem.bottleneck.build with
  | error _ => simp [hbuild] at hcourse
  | ok g =>
      simp only [hbuild] at hcourse
      cases hbegin : begin g.source g.target (firstPassOver g) with
      | error _ _ => simp [hbegin] at hcourse
      | ok _ t =>
          simp only [hbegin, Option.some.injEq] at hcourse
          have hproper := Problem.proper_of_build hbuild
          have hsaturating := Preflow.saturating_saturate
            (p := Preflow.ofFlow g.initialFlow) (FlowGraph.isFlow_initialFlow hproper).fits
          exact ⟨g, t, rfl, hbegin, hcourse, (labels_rise hbuild g.source_ne_target (Or.inl rfl)
            hsaturating.balanced.fits hsaturating.balanced.excess_nonneg hbegin 0 100).1⟩

end Fifo

end PushRelabel
