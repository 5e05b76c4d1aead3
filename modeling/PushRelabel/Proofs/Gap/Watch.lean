import PushRelabel.Gap.Watch
import PushRelabel.Proofs.Gap.Agreement
import PushRelabel.Proofs.Halting

/-! # What a watch accepts

A watch stops at the first access out of range. If it watches one label for each node, and its
detector agrees with the labels, then it carries out every change that names a node and a label
up to the sentinel. What it does then is what its detector does.
-/

namespace PushRelabel

namespace Gap.Buckets

variable {n : Nat} {b : Buckets n}

theorem follow_clear (b : Buckets n) (label fuel : Nat) (first : Option (Fin n)) :
    (b.clear label).follow fuel first = b.follow fuel first := by
  induction fuel generalizing first with
  | zero => rfl
  | succ fuel ih =>
      cases first with
      | none => rfl
      | some v => exact congrArg (v :: ·) (ih b.next[v])

theorem bucket_clear {label label' : Nat} (hne : label ≠ label') :
    (b.clear label).bucket label' = b.bucket label' := by
  unfold bucket
  split
  next hlt =>
    rw [follow_clear]
    simp [clear, hne]
  next => rfl

/-- A node is in the list of its label. -/
theorem Tracks.mem_bucket {labels : Vector Nat n} (h : b.Tracks labels) {v : Fin n}
    (hlt : labels[v] < n) : v ∈ b.bucket labels[v] := by
  obtain ⟨lists, hlists⟩ := h
  have hbucket := hlists.bucket_eq ⟨labels[v], hlt⟩
  dsimp only at hbucket
  rw [hbucket]
  exact (hlists.mem_iff _ v).mpr rfl

end Gap.Buckets

namespace Watch

variable {n : Nat}

/-- A detector next to the labels of the nodes that it knows. -/
def of (detector : GapDetector n) (labels : Vector Nat n) : Watch n := ⟨detector, labels.toArray⟩

/-- Whether a node can be taken out of the bucket of a label: it is in there, or the label has
no bucket. -/
def canLeave (w : Watch n) (node label : Nat) : Bool :=
  match w.detector with
  | .buckets b => n ≤ label ∨ node ∈ (b.bucket label).map Fin.val
  | _ => true

/-- Gives a node another label, up to the sentinel, and closes the gap that this may leave. -/
def change (node label : Nat) : EStateM Fault (Watch n) Unit := do
  if n < label then throw .overflow
  let old ← labelOf node
  if (← get).canLeave node old = false then throw .indexOutOfRange
  if ← move node label then
    let _ ← retire old

/-- Gives a node one label after the other. -/
def changeAll (node : Nat) : List Nat → EStateM Fault (Watch n) Unit
  | [] => pure ()
  | label :: rest => do
      change node label
      changeAll node rest

variable {d : GapDetector n} {labels : Vector Nat n} {v : Fin n} {label gap : Nat}

theorem size_foldl_setIfInBounds (nodes : List Nat) (labels : Array Nat) (label : Nat) :
    (nodes.foldl (fun labels v => labels.setIfInBounds v label) labels).size = labels.size := by
  induction nodes generalizing labels with
  | nil => rfl
  | cons v nodes ih => simp [ih]

/-! ## Single accesses -/

theorem labelOf_eq {w : Watch n} {v : Nat} (hv : v < w.labels.size) :
    labelOf v w = .ok w.labels[v] w := by
  simp [labelOf, hv]

theorem setLabel_eq {w : Watch n} {v : Nat} (hv : v < w.labels.size) (label : Nat) :
    setLabel v label w = .ok () { w with labels := w.labels.set v label hv } := dif_pos hv

theorem hasEntry_eq (w : Watch n) {v : Nat} (hv : v < n) : w.hasEntry v = true := by
  cases hd : w.detector <;> simp [hasEntry, hd, hv]

theorem record_eq (w : Watch n) {v : Nat} (hv : v < n) (old new : Nat) :
    record v old new w = .ok (w.detector.move v old new).2
      { w with detector := (w.detector.move v old new).1 } :=
  if_pos (Or.inl (w.hasEntry_eq hv))

theorem move_eq {w : Watch n} {v : Nat} (hsize : w.labels.size ≤ n) (hv : v < w.labels.size)
    (label : Nat) :
    move v label w = .ok (w.detector.move v w.labels[v] label).2
      ⟨(w.detector.move v w.labels[v] label).1, w.labels.set v label hv⟩ := by
  unfold move
  rw [bind_of_ok (labelOf_eq hv), bind_of_ok (setLabel_eq hv label)]
  exact record_eq _ (hv.trans_le hsize) _ _

/-- Rebuilding a detector visits existing nodes only. -/
theorem reset_eq {w : Watch n} (hsize : w.labels.size ≤ n) :
    reset w = .ok () { w with detector := w.detector.reset w.labels } := by
  apply if_pos
  rw [List.all_eq_true]
  intro a ha
  have hlt : a.2 < w.labels.size := by simpa using (List.mem_zipIdx ha).2.1
  exact decide_eq_true (Or.inr (w.hasEntry_eq (hlt.trans_le hsize)))

theorem isEmptyAt_eq (w : Watch n) (hlabel : label < n) :
    isEmptyAt label w = .ok (w.detector.isEmptyAt label) w := by
  cases hd : w.detector <;> simp [isEmptyAt, hd, hlabel]

/-! ## Many labels at once -/

theorem retireAll_eq {nodes : List Nat} {w : Watch n} (hnodes : ∀ v ∈ nodes, v < w.labels.size) :
    retireAll nodes w = .ok ()
      { w with labels := nodes.foldl (fun labels v => labels.setIfInBounds v n) w.labels } := by
  induction nodes generalizing w with
  | nil => rfl
  | cons v nodes ih =>
      have hv := hnodes v List.mem_cons_self
      have hset : w.labels.setIfInBounds v n = w.labels.set v n hv := dif_pos hv
      unfold retireAll
      rw [bind_of_ok (setLabel_eq hv n), List.foldl_cons, hset]
      apply ih
      intro u hu
      simpa using hnodes u (List.mem_cons_of_mem v hu)

/-- Emptying a bucket leaves the other ones as they are. -/
theorem retireBuckets_eq {ls : List Nat} (hnodup : ls.Nodup) (b : Gap.Buckets n)
    {labels : Array Nat} (hnodes : ∀ l ∈ ls, ∀ v ∈ b.bucket l, v.val < labels.size) :
    retireBuckets b ls ⟨.buckets b, labels⟩ =
      .ok () ⟨.buckets (ls.foldl Gap.Buckets.clear b),
        (ls.flatMap fun l => (b.bucket l).map Fin.val).foldl
          (fun labels v => labels.setIfInBounds v n) labels⟩ := by
  induction ls generalizing b labels with
  | nil => rfl
  | cons l ls ih =>
      obtain ⟨hl, hnodup⟩ := List.nodup_cons.mp hnodup
      have hothers : ∀ l' ∈ ls, (b.clear l).bucket l' = b.bucket l' := fun l' hl' =>
        Gap.Buckets.bucket_clear (ne_of_mem_of_not_mem hl' hl).symm
      have hflat : (ls.flatMap fun l' => ((b.clear l).bucket l').map Fin.val) =
          ls.flatMap fun l' => (b.bucket l').map Fin.val :=
        List.flatMap_congr fun l' hl' => by rw [hothers l' hl']
      have hfirst : ∀ v ∈ (b.bucket l).map Fin.val, v < labels.size := by
        simpa using hnodes l List.mem_cons_self
      have hcleared : (modify fun w => { w with detector := .buckets (b.clear l) } :
          EStateM Fault (Watch n) PUnit) ⟨.buckets b, labels⟩ =
            .ok ⟨⟩ ⟨.buckets (b.clear l), labels⟩ := rfl
      unfold retireBuckets
      dsimp only
      rw [bind_of_ok hcleared, bind_of_ok (retireAll_eq hfirst), ih hnodup, hflat,
        List.flatMap_cons, List.foldl_append, List.foldl_cons]
      intro l' hl' v hv
      rw [hothers l' hl'] at hv
      rw [size_foldl_setIfInBounds]
      exact hnodes l' (List.mem_cons_of_mem l hl') v hv

theorem canScan_eq (w : Watch n) (hn : 0 < n) (hgap : gap < Word.largest) :
    w.canScan gap = true := by
  cases hd : w.detector <;> simp [canScan, hd, hgap, hn]

/-- Closing a gap is what the detector does, and no access is out of range. -/
theorem retire_eq {w : Watch n}
    (hnodes : ∀ u ∈ (w.detector.takeAbove gap w.labels).2, u < w.labels.size) (hn : 0 < n)
    (hgap : gap < Word.largest) :
    retire gap w = .ok (w.detector.takeAbove gap w.labels).2.length
      ⟨(w.detector.takeAbove gap w.labels).1, (w.detector.takeAbove gap w.labels).2.foldl
        (fun labels v => labels.setIfInBounds v n) w.labels⟩ := by
  have hget : (get : EStateM Fault (Watch n) (Watch n)) w = .ok w w := rfl
  have hscan : (do
      set { w with detector := (w.detector.takeAbove gap w.labels).1 }
      retireAll (w.detector.takeAbove gap w.labels).2
      modify fun w' => { w' with detector := (w.detector.takeAbove gap w.labels).1 }
      return (w.detector.takeAbove gap w.labels).2.length : EStateM Fault (Watch n) Nat) w =
        .ok (w.detector.takeAbove gap w.labels).2.length
          ⟨(w.detector.takeAbove gap w.labels).1, (w.detector.takeAbove gap w.labels).2.foldl
            (fun labels v => labels.setIfInBounds v n) w.labels⟩ :=
    (bind_of_ok rfl).trans (bind_of_ok (retireAll_eq
      (w := ⟨(w.detector.takeAbove gap w.labels).1, w.labels⟩) hnodes))
  unfold retire
  rw [bind_of_ok hget, if_neg (not_not.mpr (w.canScan_eq hn hgap))]
  obtain ⟨d, labels⟩ := w
  cases d with
  | none => exact hscan
  | counts c => exact hscan
  | buckets b =>
      have hnodup : (b.labelsAbove gap).Nodup := List.nodup_range'
      refine bind_of_ok (retireBuckets_eq hnodup b fun l hl v hv => hnodes v ?_)
      exact List.mem_flatMap.mpr ⟨l, hl, List.mem_map_of_mem hv⟩
  | sortedSet o => exact hscan

/-! ## One label for each node -/

theorem labelOf_of (d : GapDetector n) (labels : Vector Nat n) (v : Fin n) :
    labelOf v (of d labels) = .ok labels[v] (of d labels) :=
  labelOf_eq (w := of d labels) (by simp [of])

theorem move_of (d : GapDetector n) (labels : Vector Nat n) (v : Fin n) (label : Nat) :
    move v label (of d labels) =
      .ok (d.move v labels[v] label).2 (of (d.move v labels[v] label).1 (labels.put v label)) :=
  move_eq (w := of d labels) (by simp [of]) (by simp [of]) label

theorem reset_of (d : GapDetector n) (labels : Vector Nat n) :
    reset (of d labels) = .ok () (of (d.reset labels.toArray) labels) :=
  reset_eq (w := of d labels) (by simp [of])

theorem toArray_foldl_setIfInBounds (nodes : List Nat) (labels : Vector Nat n) (label : Nat) :
    (nodes.foldl (fun labels v => labels.setIfInBounds v label) labels).toArray =
      nodes.foldl (fun labels v => labels.setIfInBounds v label) labels.toArray := by
  induction nodes generalizing labels with
  | nil => rfl
  | cons v nodes ih => simp [ih]

theorem retire_of (hnodes : ∀ u ∈ (d.takeAbove gap labels.toArray).2, u < n) (hn : 0 < n)
    (hgap : gap < Word.largest) :
    retire gap (of d labels) = .ok (d.takeAbove gap labels.toArray).2.length
      (of (d.takeAbove gap labels.toArray).1 ((d.takeAbove gap labels.toArray).2.foldl
        (fun labels v => labels.setIfInBounds v n) labels)) := by
  have hexisting : ∀ u ∈ (d.takeAbove gap labels.toArray).2, u < (of d labels).labels.size := by
    simpa [of] using hnodes
  rw [retire_eq hexisting hn hgap]
  simp [of, toArray_foldl_setIfInBounds]

/-- A detector that agrees with the labels names existing nodes only. -/
theorem lt_of_mem_takeAbove (h : d.Tracks labels) {u : Nat}
    (hu : u ∈ (d.takeAbove gap labels.toArray).2) : u < n := by
  cases d with
  | none => exact absurd hu List.not_mem_nil
  | counts c => exact Gap.Counts.lt_of_mem_nodesAbove hu
  | buckets b =>
      obtain ⟨label, -, hu⟩ := List.mem_flatMap.mp hu
      obtain ⟨w, -, rfl⟩ := List.mem_map.mp hu
      exact w.isLt
  | sortedSet o => exact Gap.Ordered.Tracks.lt_of_mem_takeAbove h hu

/-- A watch accepts a label up to the sentinel for a node, and changes what the detector and the
labels alone would change. -/
theorem change_of (h : d.Tracks labels) (hn : n < Word.largest) (hlabel : label ≤ n) :
    change v label (of d labels) = .ok () (if (d.move v labels[v] label).2 then
      of ((d.move v labels[v] label).1.takeAbove labels[v] (labels.put v label).toArray).1
        (((d.move v labels[v] label).1.takeAbove labels[v] (labels.put v label).toArray).2.foldl
          (fun labels u => labels.setIfInBounds u n) (labels.put v label))
      else of (d.move v labels[v] label).1 (labels.put v label)) := by
  -- a node below the sentinel is in the bucket of its label
  have hleaves : (of d labels).canLeave v labels[v] = true := by
    cases d with
    | buckets b =>
        refine decide_eq_true ?_
        by_cases hlt : labels[v] < n
        · exact Or.inr (List.mem_map_of_mem (Gap.Buckets.Tracks.mem_bucket h hlt))
        · exact Or.inl (Nat.le_of_not_lt hlt)
    | _ => rfl
  have hget : (get : EStateM Fault (Watch n) (Watch n)) (of d labels) =
    .ok (of d labels) (of d labels) := rfl
  unfold change
  rw [if_neg hlabel.not_gt]
  dsimp only
  rw [bind_of_ok (labelOf_of d labels v), bind_of_ok hget, hleaves,
    if_neg Bool.true_eq_false_eq_False, bind_of_ok (move_of d labels v label)]
  split
  next hemptied =>
    have hlt := ((h.move_emptied_iff v label).mp hemptied).2.1
    have hnodes : ∀ u ∈ ((d.move v labels[v] label).1.takeAbove labels[v]
        (labels.put v label).toArray).2, u < n := fun u => lt_of_mem_takeAbove (h.move v label)
    exact bind_of_ok (retire_of hnodes (Fin.pos v) (hlt.trans hn))
  next => rfl

/-- Changes that are accepted can be followed by other ones. -/
theorem changeAll_append {w w' : Watch n} {v : Nat} {ls : List Nat} {u : Unit}
    (h : changeAll v ls w = .ok u w') (ms : List Nat) :
    changeAll v (ls ++ ms) w = changeAll v ms w' := by
  induction ls generalizing w with
  | nil =>
      obtain ⟨-, rfl⟩ := pure_eq_ok_iff.mp h
      rfl
  | cons l ls ih =>
      obtain ⟨_, r, hfirst, hrest⟩ := bind_eq_ok_iff.mp h
      exact (bind_of_ok hfirst).trans (ih hrest)

/-! ## Several nodes at once -/

/-- Gives nodes other labels, up to the sentinel, and returns the labels that lost their last
node. -/
def moveAll : List (Nat × Nat) → EStateM Fault (Watch n) (List Nat)
  | [] => pure []
  | (node, label) :: rest => do
      if n < label then throw .overflow
      let old ← labelOf node
      let emptied ← move node label
      let others ← moveAll rest
      return if emptied then old :: others else others

/-- Those among some labels that no node has. -/
def emptyAmong : List Nat → EStateM Fault (Watch n) (List Nat)
  | [] => pure []
  | label :: rest => do
      let empty ← isEmptyAt label
      let others ← emptyAmong rest
      return if empty then label :: others else others

/-- Closes the lowest gap among some labels. -/
def closeLowest (candidates : List Nat) : EStateM Fault (Watch n) Unit := do
  let gaps ← emptyAmong candidates
  match gaps.min? with
  | none => return ()
  | some gap => let _ ← retire gap

/-- Gives nodes other labels, and closes the lowest gap that is left in the end. -/
def changeTogether (changes : List (Nat × Nat)) : EStateM Fault (Watch n) Unit := do
  closeLowest (← moveAll changes)

theorem emptyAmong_of (d : GapDetector n) (labels : Vector Nat n) {ls : List Nat}
    (hls : ∀ label ∈ ls, label < n) :
    emptyAmong ls (of d labels) = .ok (ls.filter d.isEmptyAt) (of d labels) := by
  induction ls with
  | nil => rfl
  | cons l ls ih =>
      unfold emptyAmong
      rw [bind_of_ok (isEmptyAt_eq (of d labels) (hls l List.mem_cons_self)),
        bind_of_ok (ih fun label hlabel => hls label (List.mem_cons_of_mem l hlabel)),
        List.filter_cons]
      rfl

end Watch

end PushRelabel
