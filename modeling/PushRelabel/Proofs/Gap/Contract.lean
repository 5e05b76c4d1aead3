import PushRelabel.Proofs.Gap.Watch

/-! # The contract of gap detectors

A detector may know fewer nodes than there are labels below the sentinel. Nodes at the sentinel are
never tracked, so it agrees with the labels exactly if it agrees with them after the missing nodes
were added at the sentinel. It agrees with them from its first rebuilding on, whatever operations
come after; hence it answers every question about the labels as a search among them would.
-/

namespace PushRelabel

open Gap.Counts (nodesAbove)

variable {n : Nat} {labels : Array Nat}

/-- The labels of as many nodes as the sentinel says; nodes that are missing have the sentinel. -/
def Gap.pad (n : Nat) (labels : Array Nat) : Vector Nat n := Vector.ofFn fun v => labels.getD v n

namespace Gap

@[simp] theorem getElem_pad (labels : Array Nat) {v : Nat} (hv : v < n) :
    (pad n labels)[v] = labels.getD v n := by
  simp [pad]

theorem getElem_pad_of_lt {labels : Array Nat} {v : Nat} (hv : v < labels.size) (hn : v < n) :
    (pad n labels)[v] = labels[v] := by
  simp [hv]

theorem toArray_pad (hsize : labels.size ≤ n) :
    (pad n labels).toArray = labels ++ Array.replicate (n - labels.size) n := by
  ext v hpadded happended
  · simp
    omega
  · by_cases hv : v < labels.size <;> simp [pad, Array.getElem_append, hv]

theorem pad_set (hsize : labels.size ≤ n) {v : Nat} (hv : v < labels.size) (label : Nat) :
    pad n (labels.set v label hv) = (pad n labels).put ⟨v, hv.trans_le hsize⟩ label := by
  ext u hu
  rw [Vector.getElem_put_val]
  by_cases huv : v = u
  · subst huv
    simp [pad, hv]
  · simp [pad, Array.getElem?_set, huv]

theorem forall_pad_ne_iff (hsize : labels.size ≤ n) {label : Nat} (hlabel : label < n) :
    (∀ v : Fin n, (pad n labels)[v] ≠ label) ↔ label ∉ labels := by
  simp only [Vector.getElem_fin, getElem_pad, Array.mem_iff_getElem]
  constructor
  · rintro hne ⟨v, hv, heq⟩
    apply hne ⟨v, hv.trans_le hsize⟩
    simp [hv, heq]
  · intro hnot v heq
    by_cases hv : v.val < labels.size
    · exact hnot ⟨v, hv, by simpa [hv] using heq⟩
    · simp [hv] at heq
      omega

/-! ## Nodes at the sentinel -/

theorem Counts.reset_push (labels : Array Nat) :
    (reset (labels.push n) : Counts n) = reset labels := by
  unfold reset
  rw [Array.foldl_push]
  exact dif_neg (Nat.lt_irrefl n)

theorem Buckets.reset_push (b : Buckets n) (labels : Array Nat) :
    b.reset (labels.push n) = b.reset labels := by
  unfold reset
  rw [Array.size_push, List.range_succ, List.foldl_append, List.foldl_cons, List.foldl_nil,
    insertAt, dif_neg (by simp)]
  apply List.foldl_ext
  intro b v hv
  rw [List.mem_range] at hv
  simp [Array.getElem?_push, hv.ne, hv]

theorem Ordered.reset_push (labels : Array Nat) : reset n (labels.push n) = reset n labels := by
  simp [reset, List.zipIdx_append]

theorem Counts.nodesAbove_push (gap : Nat) (labels : Array Nat) :
    nodesAbove gap n (labels.push n) = nodesAbove gap n labels := by
  unfold nodesAbove
  rw [Array.size_push, List.range_succ, List.filter_append]
  have hnew : [labels.size].filter (fun v => gap < (labels.push n).getD v 0 ∧
      (labels.push n).getD v 0 < n) = [] := by simp
  rw [hnew, List.append_nil]
  apply List.filter_congr
  intro v hv
  rw [List.mem_range] at hv
  simp [Array.getElem?_push, hv.ne]

/-- What does not look at nodes at the sentinel does not look at missing ones. -/
theorem apply_pad {α : Type} {f : Array Nat → α} (hpush : ∀ labels, f (labels.push n) = f labels)
    (hsize : labels.size ≤ n) : f (pad n labels).toArray = f labels := by
  rw [toArray_pad hsize]
  generalize n - labels.size = k
  induction k with
  | zero => simp
  | succ k ih => rw [Array.replicate_succ, Array.append_push, hpush, ih]

end Gap

namespace GapDetector

variable (d : GapDetector n)

theorem reset_push (labels : Array Nat) : d.reset (labels.push n) = d.reset labels := by
  cases d with
  | none => rfl
  | counts c => exact congrArg counts (Gap.Counts.reset_push labels)
  | buckets b => exact congrArg buckets (b.reset_push labels)
  | sortedSet o => exact congrArg sortedSet (Gap.Ordered.reset_push labels)

theorem takeAbove_push (gap : Nat) (labels : Array Nat) :
    d.takeAbove gap (labels.push n) = d.takeAbove gap labels := by
  cases d with
  | counts c => exact congrArg (Prod.mk _) (Gap.Counts.nodesAbove_push gap labels)
  | _ => rfl

theorem reset_pad (hsize : labels.size ≤ n) :
    d.reset (Gap.pad n labels).toArray = d.reset labels :=
  Gap.apply_pad d.reset_push hsize

theorem takeAbove_pad (gap : Nat) (hsize : labels.size ≤ n) :
    d.takeAbove gap (Gap.pad n labels).toArray = d.takeAbove gap labels :=
  Gap.apply_pad (d.takeAbove_push gap) hsize

theorem Follows.isEmptyAt_iff {d : GapDetector n} {labels : Vector Nat n} (h : d.Follows labels)
    {label : Nat} (hlabel : label < n) :
    d.isEmptyAt label = true ↔ ∀ v : Fin n, labels[v] ≠ label := by
  obtain ⟨hdetects, htracks⟩ := h
  cases d with
  | none => exact absurd rfl hdetects
  | counts c =>
      exact (Gap.Counts.Tracks.isEmptyAt_iff htracks label).trans (and_iff_right hlabel)
  | buckets b => exact Gap.Buckets.Tracks.isEmptyAt_iff htracks ⟨label, hlabel⟩
  | sortedSet o => exact Gap.Ordered.Tracks.isEmptyAt_iff htracks hlabel

end GapDetector

namespace Watch

/-- The label of a node after the nodes above a gap were retired. -/
def retiredLabel (n gap label : Nat) : Nat := if gap < label ∧ label < n then n else label

/-- The detector of a watch detects gaps, and agrees with the labels. -/
structure Agrees (w : Watch n) : Prop where
  size_le : w.labels.size ≤ n
  follows : w.detector.Follows (Gap.pad n w.labels)

namespace Agrees

variable {w : Watch n} {gap label : Nat}

theorem afterReset (hdetects : w.detector ≠ .none) (hsize : w.labels.size ≤ n) :
    Agrees { w with detector := w.detector.reset w.labels } := by
  refine ⟨hsize, ?_⟩
  rw [← w.detector.reset_pad hsize]
  exact GapDetector.follows_reset hdetects _

theorem afterMove (h : w.Agrees) {v : Nat} (hv : v < w.labels.size) (label : Nat) :
    Agrees (⟨(w.detector.move v w.labels[v] label).1, w.labels.set v label hv⟩ : Watch n) := by
  constructor
  · simpa using h.size_le
  · have hmoved := h.follows.move ⟨v, hv.trans_le h.size_le⟩ label
    rw [Vector.getElem_fin, Gap.getElem_pad_of_lt hv] at hmoved
    rw [Gap.pad_set h.size_le hv]
    exact hmoved

theorem isEmptyAt_eq (h : w.Agrees) (hlabel : label < n) :
    w.detector.isEmptyAt label = decide (label ∉ w.labels) := by
  rw [Bool.eq_iff_iff, h.follows.isEmptyAt_iff hlabel, decide_eq_true_iff]
  exact Gap.forall_pad_ne_iff h.size_le hlabel

theorem emptied_eq (h : w.Agrees) {v : Nat} (hv : v < w.labels.size) (label : Nat) :
    (w.detector.move v w.labels[v] label).2 =
      decide (w.labels[v] < n ∧ w.labels[v] ∉ w.labels.set v label hv) := by
  have hemptied := h.follows.tracks.move_emptied_iff ⟨v, hv.trans_le h.size_le⟩ label
  rw [Vector.getElem_fin, Gap.getElem_pad_of_lt hv, ← Gap.pad_set h.size_le hv] at hemptied
  rw [Bool.eq_iff_iff, decide_eq_true_iff, hemptied, and_iff_right h.follows.detects]
  apply and_congr_right
  exact Gap.forall_pad_ne_iff (by simpa using h.size_le)

theorem perm_nodesAbove (h : w.Agrees) (gap : Nat) :
    (w.detector.takeAbove gap w.labels).2.Perm (nodesAbove gap n w.labels) := by
  have hperm := h.follows.tracks.takeAbove_perm h.follows.detects gap
  rwa [w.detector.takeAbove_pad gap h.size_le,
    Gap.apply_pad (Gap.Counts.nodesAbove_push gap) h.size_le] at hperm

theorem mem_takeAbove_iff (h : w.Agrees) (gap : Nat) {v : Nat} (hv : v < w.labels.size) :
    v ∈ (w.detector.takeAbove gap w.labels).2 ↔ gap < w.labels[v] ∧ w.labels[v] < n := by
  rw [(h.perm_nodesAbove gap).mem_iff]
  simp [nodesAbove, hv]

theorem lt_of_mem_takeAbove (h : w.Agrees) {v : Nat}
    (hv : v ∈ (w.detector.takeAbove gap w.labels).2) : v < w.labels.size := by
  rw [(h.perm_nodesAbove gap).mem_iff, nodesAbove, List.mem_filter, List.mem_range] at hv
  exact hv.1

theorem length_takeAbove (h : w.Agrees) (gap : Nat) :
    (w.detector.takeAbove gap w.labels).2.length =
      w.labels.countP fun label => gap < label ∧ label < n := by
  have hlabels : w.labels.toList = (List.range w.labels.size).map (w.labels.getD · 0) := by
    apply List.ext_getElem
    · simp
    · intro v hv _
      rw [Array.length_toList] at hv
      simp [hv]
  rw [(h.perm_nodesAbove gap).length_eq, nodesAbove, ← List.countP_eq_length_filter,
    ← Array.countP_toList, hlabels, List.countP_map]
  rfl

theorem labels_afterRetire (h : w.Agrees) (gap : Nat) :
    (w.detector.takeAbove gap w.labels).2.foldl (fun labels v => labels.setIfInBounds v n)
      w.labels = w.labels.map (retiredLabel n gap) := by
  generalize hnodes : (w.detector.takeAbove gap w.labels).2 = nodes
  have hmem : ∀ {v : Nat} (hv : v < w.labels.size), v ∈ nodes ↔
      gap < w.labels[v] ∧ w.labels[v] < n := fun hv => hnodes ▸ h.mem_takeAbove_iff gap hv
  have hvector : nodes.foldl (fun labels v => labels.setIfInBounds v n) w.labels.toVector =
      w.labels.toVector.map (retiredLabel n gap) := by
    apply Vector.ext_fin
    intro v
    rw [getElem_foldl_setIfInBounds]
    simp [retiredLabel, hmem v.isLt]
  simpa [toArray_foldl_setIfInBounds] using congrArg Vector.toArray hvector

theorem afterRetire (h : w.Agrees) (gap : Nat) :
    Agrees (⟨(w.detector.takeAbove gap w.labels).1, w.labels.map (retiredLabel n gap)⟩ :
      Watch n) := by
  constructor
  · simpa using h.size_le
  · rw [← w.detector.takeAbove_pad gap h.size_le]
    apply h.follows.takeAbove
    intro v
    by_cases hv : v.val < w.labels.size <;> simp [hv, retiredLabel]

end Agrees

/-! ## Any sequence of operations -/

/-- The watches that operations on the labels lead to; the first one rebuilds the detector, the
other ones come in any order. -/
inductive Arrives (w₀ : Watch n) : Watch n → Prop
  | rebuilt {w : Watch n} (h : reset w₀ = .ok () w) : Arrives w₀ w
  | reset {w w' : Watch n} (hw : Arrives w₀ w) (h : reset w = .ok () w') : Arrives w₀ w'
  | moved {w w' : Watch n} {node label : Nat} {emptied : Bool} (hw : Arrives w₀ w)
      (h : move node label w = .ok emptied w') : Arrives w₀ w'
  | retired {w w' : Watch n} {gap count : Nat} (hw : Arrives w₀ w) (hgap : gap < n)
      (h : retire gap w = .ok count w') : Arrives w₀ w'

/-- A node can change its label only if it exists. -/
theorem lt_of_move {w w' : Watch n} {node label : Nat} {emptied : Bool}
    (h : move node label w = .ok emptied w') : node < w.labels.size := by
  obtain ⟨old, _, hold, -⟩ := bind_eq_ok_iff.mp h
  by_contra hnode
  simp [labelOf, hnode] at hold

/-- The links of each list come to an end, so that following them any further finds no more
nodes. -/
def LinksEnd (w : Watch n) : Prop :=
  ∀ b, w.detector = .buckets b → ∀ (label fuel : Nat) (hlabel : label < n), n ≤ fuel →
    b.follow fuel b.heads[label] = b.bucket label

/-- What a detector owes: its operations succeed, and their answers are those of a search among
the labels. -/
structure Contract (w : Watch n) : Prop where
  isEmptyAt : ∀ label < n, isEmptyAt label w = .ok (decide (label ∉ w.labels)) w
  reset : ∃ w', reset w = .ok () w' ∧ w'.labels = w.labels
  move : ∀ (node label : Nat) (hnode : node < w.labels.size), ∃ w',
    move node label w =
      .ok (decide (w.labels[node] < n ∧ w.labels[node] ∉ w'.labels)) w' ∧
    w'.labels = w.labels.set node label hnode
  retire : ∀ gap < n, ∃ w',
    retire gap w = .ok (w.labels.countP fun label => gap < label ∧ label < n) w' ∧
    w'.labels = w.labels.map (retiredLabel n gap)
  linksEnd : w.LinksEnd

namespace Agrees

variable {w w' : Watch n} {gap label : Nat}

theorem retire_eq (h : w.Agrees) (hword : n ≤ Word.largest) (hgap : gap < n) :
    retire gap w = .ok (w.labels.countP fun label => gap < label ∧ label < n)
      ⟨(w.detector.takeAbove gap w.labels).1, w.labels.map (retiredLabel n gap)⟩ := by
  have hnodes : ∀ u ∈ (w.detector.takeAbove gap w.labels).2, u < w.labels.size :=
    fun u => h.lt_of_mem_takeAbove
  rw [Watch.retire_eq hnodes (Nat.zero_lt_of_lt hgap) (hgap.trans_le hword), h.length_takeAbove,
    h.labels_afterRetire]

theorem linksEnd (h : w.Agrees) : w.LinksEnd := by
  intro b hb label fuel hlabel hfuel
  have htracks := h.follows.tracks
  rw [hb] at htracks
  obtain ⟨lists, hlists⟩ := htracks
  have hlength : (lists ⟨label, hlabel⟩).length ≤ n := by
    simpa using (hlists.nodup ⟨label, hlabel⟩).length_le_card
  rw [hlists.bucket_eq ⟨label, hlabel⟩]
  exact (hlists.chain ⟨label, hlabel⟩).follow_eq (hlength.trans hfuel)

theorem contract (h : w.Agrees) (hword : n ≤ Word.largest) : w.Contract where
  isEmptyAt label hlabel := by rw [w.isEmptyAt_eq hlabel, h.isEmptyAt_eq hlabel]
  reset := ⟨_, reset_eq h.size_le, rfl⟩
  move node label hnode :=
    ⟨_, (move_eq h.size_le hnode label).trans (congrArg (EStateM.Result.ok · _)
      (h.emptied_eq hnode label)), rfl⟩
  retire gap hgap := ⟨_, h.retire_eq hword hgap, rfl⟩
  linksEnd := h.linksEnd

end Agrees

/-- Agreement is set up by the first operation, and kept by every other one. -/
theorem Arrives.agrees {w₀ w : Watch n} (hword : n ≤ Word.largest) (hdetects : w₀.detector ≠ .none)
    (hsize : w₀.labels.size ≤ n) (h : Arrives w₀ w) : w.Agrees := by
  induction h with
  | rebuilt hreset =>
      rw [reset_eq hsize] at hreset
      obtain ⟨-, rfl⟩ := EStateM.Result.ok.inj hreset
      exact Agrees.afterReset hdetects hsize
  | reset hw hreset ih =>
      rw [reset_eq ih.size_le] at hreset
      obtain ⟨-, rfl⟩ := EStateM.Result.ok.inj hreset
      exact Agrees.afterReset ih.follows.detects ih.size_le
  | moved hw hmove ih =>
      have hnode := lt_of_move hmove
      rw [move_eq ih.size_le hnode] at hmove
      obtain ⟨-, rfl⟩ := EStateM.Result.ok.inj hmove
      exact ih.afterMove hnode _
  | retired hw hgap hretire ih =>
      rw [ih.retire_eq hword hgap] at hretire
      obtain ⟨-, rfl⟩ := EStateM.Result.ok.inj hretire
      exact ih.afterRetire _

/-- Whatever operations come after a rebuilding, a detector fulfils its contract. -/
theorem contract_of_arrives {w₀ w : Watch n} (hword : n ≤ Word.largest)
    (hdetects : w₀.detector ≠ .none) (hsize : w₀.labels.size ≤ n) (h : Arrives w₀ w) :
    w.Contract :=
  (h.agrees hword hdetects hsize).contract hword

/-- Six nodes, the last of which has the sentinel already. -/
def sixNodes : Watch 6 := ⟨.buckets .empty, #[0, 1, 2, 2, 3, 6]⟩

/-- Empties a label, retires what is above it, and brings the last node back to that label. -/
def revive : EStateM Fault (Watch 6) Nat := do
  reset
  let _ ← move 2 3
  let _ ← move 3 4
  let retired ← retire 2
  let _ ← move 5 2
  return retired

theorem contract_of_arrives_revive : ∃ w, revive sixNodes = .ok 3 w ∧
    w.labels = #[0, 1, 6, 6, 6, 2] ∧ w.Contract := by
  have hrun : ∃ w, revive sixNodes = .ok 3 w ∧ w.labels = #[0, 1, 6, 6, 6, 2] := ⟨_, rfl, rfl⟩
  obtain ⟨w, hw, hlabels⟩ := hrun
  obtain ⟨_, _, hreset, h⟩ := bind_eq_ok_iff.mp hw
  obtain ⟨_, _, hfirst, h⟩ := bind_eq_ok_iff.mp h
  obtain ⟨_, _, hsecond, h⟩ := bind_eq_ok_iff.mp h
  obtain ⟨_, _, hretire, h⟩ := bind_eq_ok_iff.mp h
  obtain ⟨_, _, hback, h⟩ := bind_eq_ok_iff.mp h
  obtain ⟨-, rfl⟩ := pure_eq_ok_iff.mp h
  have harrives := (((Arrives.rebuilt hreset).moved hfirst).moved hsecond).retired
    (by decide) hretire
  exact ⟨_, hw, hlabels, contract_of_arrives (by decide) (by simp [sixNodes]) (by decide)
    (harrives.moved hback)⟩

end Watch

end PushRelabel
