import Mathlib
import PushRelabel.Gap.Buckets
import PushRelabel.Proofs.Tables

/-! # Buckets that agree with labels

Following the links from the head of a label gives a list without repetitions, and
the links back agree with it. Inserting a node puts it in front of one list, removing
it takes it out of one list, and both leave the other lists alone. So the buckets
track labels: the list of a label holds the nodes with that label and no others.
-/

namespace PushRelabel.Gap.Buckets

variable {n : Nat} {b b' : Buckets n}

/-- The nodes from `first` on, linked in both directions and preceded by `before`. -/
def Chain (b : Buckets n) : Option (Fin n) → Option (Fin n) → List (Fin n) → Prop
  | _, first, [] => first = none
  | before, first, v :: vs => first = some v ∧ b.prev[v] = before ∧ Chain b (some v) b.next[v] vs

namespace Chain

variable {before first : Option (Fin n)} {vs : List (Fin n)}

theorem congr (h : Chain b before first vs)
    (hlinks : ∀ v ∈ vs, b'.prev[v] = b.prev[v] ∧ b'.next[v] = b.next[v]) :
    Chain b' before first vs := by
  induction vs generalizing before first with
  | nil => exact h
  | cons v vs ih =>
      obtain ⟨hfirst, hprev, hrest⟩ := h
      obtain ⟨hprev', hnext'⟩ := hlinks v List.mem_cons_self
      refine ⟨hfirst, hprev'.trans hprev, ?_⟩
      rw [hnext']
      exact ih hrest fun w hw => hlinks w (List.mem_cons_of_mem v hw)

theorem prev_eq_or_mem (h : Chain b before first vs) {v : Fin n} (hv : v ∈ vs) :
    b.prev[v] = before ∨ ∃ u ∈ vs, b.prev[v] = some u := by
  induction vs generalizing before first with
  | nil => simp at hv
  | cons w vs ih =>
      obtain ⟨-, hprev, hrest⟩ := h
      rcases List.mem_cons.mp hv with rfl | hv
      · exact Or.inl hprev
      · rcases ih hrest hv with hw | ⟨u, hu, heq⟩
        · exact Or.inr ⟨w, List.mem_cons_self, hw⟩
        · exact Or.inr ⟨u, List.mem_cons_of_mem w hu, heq⟩

theorem mem_of_next (h : Chain b before first vs) {v u : Fin n} (hv : v ∈ vs)
    (hnext : b.next[v] = some u) : u ∈ vs := by
  induction vs generalizing before first with
  | nil => simp at hv
  | cons w vs ih =>
      obtain ⟨-, -, hrest⟩ := h
      rcases List.mem_cons.mp hv with rfl | hv
      · cases vs with
        | nil => exact absurd (hnext.symm.trans hrest) (Option.some_ne_none u)
        | cons x vs =>
            obtain rfl := Option.some.inj (hnext.symm.trans hrest.1)
            exact List.mem_cons_of_mem _ List.mem_cons_self
      · exact List.mem_cons_of_mem w (ih hrest hv)

theorem mem_of_first (h : Chain b before first vs) {u : Fin n} (hu : first = some u) : u ∈ vs := by
  cases vs with
  | nil => exact absurd (hu.symm.trans h) (Option.some_ne_none u)
  | cons w vs =>
      obtain rfl := Option.some.inj (hu.symm.trans h.1)
      exact List.mem_cons_self

/-- Linking a new node and the first one to each other puts it in front. -/
theorem push (h : Chain b none first vs) (hnodup : vs.Nodup) {v : Fin n} (hv : v ∉ vs)
    (hprev' : ∀ u : Fin n, b'.prev[u] =
      if first = some u then some v else if u = v then none else b.prev[u])
    (hnext' : ∀ u : Fin n, b'.next[u] = if u = v then first else b.next[u]) :
    Chain b' none (some v) (v :: vs) := by
  have hfirst : first ≠ some v := fun heq => hv (h.mem_of_first heq)
  refine ⟨rfl, ?_, ?_⟩
  · rw [hprev', if_neg hfirst, if_pos rfl]
  · rw [hnext', if_pos rfl]
    cases vs with
    | nil => exact h
    | cons f fs =>
        obtain ⟨rfl, -, hrest⟩ := h
        obtain ⟨hf, -⟩ := List.nodup_cons.mp hnodup
        have hne : ∀ w ∈ f :: fs, w ≠ v := fun w hw heq => hv (heq ▸ hw)
        refine ⟨rfl, by rw [hprev', if_pos rfl], ?_⟩
        rw [hnext', if_neg (hne f List.mem_cons_self)]
        -- behind the old first node no link changes
        refine hrest.congr fun w hw => ⟨?_, ?_⟩
        · rw [hprev', if_neg, if_neg (hne w (List.mem_cons_of_mem f hw))]
          intro heq
          obtain rfl := Option.some.inj heq
          exact hf hw
        · rw [hnext', if_neg (hne w (List.mem_cons_of_mem f hw))]

/-- Linking the neighbours of a node to each other takes it out of its list. -/
theorem erase (h : Chain b before first vs) (hnodup : vs.Nodup)
    (hbefore : ∀ u ∈ vs, before ≠ some u) {v : Fin n} (hv : v ∈ vs)
    (hprev' : ∀ u : Fin n, b'.prev[u] = if b.next[v] = some u then b.prev[v] else b.prev[u])
    (hnext' : ∀ u : Fin n, b'.next[u] = if b.prev[v] = some u then b.next[v] else b.next[u]) :
    Chain b' before (if b.prev[v] = before then b.next[v] else first) (vs.erase v) := by
  induction vs generalizing before first with
  | nil => simp at hv
  | cons u us ih =>
      obtain ⟨hfirst, hprev, hrest⟩ := h
      obtain ⟨hu, hus⟩ := List.nodup_cons.mp hnodup
      by_cases hvu : v = u
      · subst hvu
        -- the first node is taken out, and its successor takes its place
        rw [List.erase_cons_head, if_pos hprev]
        cases us with
        | nil => exact hrest
        | cons a as =>
            obtain ⟨hnext, -, htail⟩ := hrest
            obtain ⟨ha, -⟩ := List.nodup_cons.mp hus
            have hkept : ∀ w ∈ a :: as, b'.next[w] = b.next[w] := by
              intro w hw
              rw [hnext', hprev, if_neg (hbefore w (List.mem_cons_of_mem v hw))]
            refine ⟨hnext, ?_, ?_⟩
            · rw [hprev', if_pos hnext, hprev]
            · rw [hkept a List.mem_cons_self]
              refine htail.congr fun w hw => ⟨?_, hkept w (List.mem_cons_of_mem a hw)⟩
              rw [hprev', hnext, if_neg]
              rintro heq
              obtain rfl := Option.some.inj heq
              exact ha hw
      · -- the node stands further behind, so the first one stays
        have hmem : v ∈ us := (List.mem_cons.mp hv).resolve_left hvu
        have hprevv : b.prev[v] ≠ before := by
          rcases hrest.prev_eq_or_mem hmem with heq | ⟨w, hw, heq⟩
          · exact fun hb => hbefore u List.mem_cons_self (hb.symm.trans heq)
          · exact fun hb => hbefore w (List.mem_cons_of_mem u hw) (hb.symm.trans heq)
        have hnextv : b.next[v] ≠ some u := fun heq => hu (hrest.mem_of_next hmem heq)
        rw [List.erase_cons_tail (by simpa using Ne.symm hvu), if_neg hprevv]
        refine ⟨hfirst, ?_, ?_⟩
        · rw [hprev', if_neg hnextv, hprev]
        · rw [hnext']
          refine ih hrest hus (fun w hw heq => ?_) hmem
          obtain rfl := Option.some.inj heq
          exact hu hw

theorem follow_eq (h : Chain b before first vs) {fuel : Nat} (hfuel : vs.length ≤ fuel) :
    b.follow fuel first = vs := by
  induction vs generalizing before first fuel with
  | nil =>
      obtain rfl : first = none := h
      cases fuel <;> rfl
  | cons v vs ih =>
      obtain ⟨rfl, -, hrest⟩ := h
      cases fuel with
      | zero => simp at hfuel
      | succ fuel =>
          rw [follow, ih hrest (by simpa using hfuel)]

end Chain

/-! ## The links after a change -/

theorem next_insert (v l u : Fin n) :
    (b.insert v l).next[u] = if u = v then b.heads[l] else b.next[u] :=
  Vector.getElem_put _ _ _ _

theorem prev_insert (v l u : Fin n) : (b.insert v l).prev[u] =
    if b.heads[l] = some u then some v else if u = v then none else b.prev[u] := by
  cases hfirst : b.heads[l] with
  | none => simp only [Buckets.insert, hfirst, Vector.getElem_put, reduceCtorEq, if_false]
  | some f =>
      simp only [Buckets.insert, hfirst, Vector.getElem_put, Option.some.injEq, eq_comm (a := u)]

theorem heads_insert (v l l' : Fin n) :
    (b.insert v l).heads[l'] = if l' = l then some v else b.heads[l'] :=
  Vector.getElem_put _ _ _ _

theorem prev_remove (v l u : Fin n) :
    (b.remove v l).prev[u] = if b.next[v] = some u then b.prev[v] else b.prev[u] := by
  cases hafter : b.next[v] with
  | none => simp only [Buckets.remove, hafter, reduceCtorEq, if_false]
  | some a => simp only [Buckets.remove, hafter, Vector.getElem_put, Option.some.injEq, eq_comm]

theorem next_remove (v l u : Fin n) :
    (b.remove v l).next[u] = if b.prev[v] = some u then b.next[v] else b.next[u] := by
  cases hbefore : b.prev[v] with
  | none => simp only [Buckets.remove, hbefore, reduceCtorEq, if_false]
  | some a => simp only [Buckets.remove, hbefore, Vector.getElem_put, Option.some.injEq, eq_comm]

theorem heads_remove (v l l' : Fin n) : (b.remove v l).heads[l'] =
    if l' = l then (if b.prev[v] = none then b.next[v] else b.heads[l]) else b.heads[l'] := by
  cases hbefore : b.prev[v] with
  | none => simp only [Buckets.remove, hbefore, Vector.getElem_put, if_true]
  | some a =>
      by_cases hl : l' = l
      · simp [Buckets.remove, hbefore, hl]
      · simp [Buckets.remove, hbefore, hl]

/-! ## Lists of the nodes that have a label -/

/-- Each label has a chain, which holds the nodes that have the label. -/
structure Holds (b : Buckets n) (has : Fin n → Fin n → Prop) (lists : Fin n → List (Fin n)) :
    Prop where
  chain : ∀ l : Fin n, Chain b none b.heads[l] (lists l)
  nodup : ∀ l, (lists l).Nodup
  mem_iff : ∀ l v, v ∈ lists l ↔ has v l
  unique : ∀ v l l', has v l → has v l' → l = l'
  le_top : ∀ v l, has v l → l.val ≤ b.top

namespace Holds

variable {has : Fin n → Fin n → Prop} {lists : Fin n → List (Fin n)}

theorem congr {has' : Fin n → Fin n → Prop} (h : b.Holds has lists)
    (hiff : ∀ v l, has v l ↔ has' v l) : b.Holds has' lists := by
  obtain rfl : has = has' := funext fun v => funext fun l => propext (hiff v l)
  exact h

theorem disjoint (h : b.Holds has lists) {l l' : Fin n} (hne : l' ≠ l) {v : Fin n}
    (hv : v ∈ lists l') : v ∉ lists l := fun hv' =>
  hne (h.unique v l' l ((h.mem_iff l' v).mp hv) ((h.mem_iff l v).mp hv'))

theorem chain_insert (h : b.Holds has lists) {v l : Fin n} (hnot : ∀ l', v ∉ lists l')
    (l' : Fin n) : Chain (b.insert v l) none (b.insert v l).heads[l']
      (Function.update lists l (v :: lists l) l') := by
  rw [heads_insert]
  by_cases hl : l' = l
  · subst hl
    rw [if_pos rfl, Function.update_self]
    exact (h.chain l').push (h.nodup l') (hnot l') (prev_insert v l') (next_insert v l')
  · rw [if_neg hl, Function.update_of_ne hl]
    refine (h.chain l').congr fun w hw => ?_
    have hne : w ≠ v := by
      rintro rfl
      exact hnot l' hw
    have hfirst : b.heads[l] ≠ some w := fun heq =>
      h.disjoint hl hw ((h.chain l).mem_of_first heq)
    rw [prev_insert, next_insert, if_neg hfirst, if_neg hne, if_neg hne]
    exact ⟨rfl, rfl⟩

theorem insert (h : b.Holds has lists) {v l : Fin n} (hnot : ∀ l', ¬ has v l') :
    (b.insert v l).Holds (fun u l' => (u = v ∧ l' = l) ∨ has u l')
      (Function.update lists l (v :: lists l)) := by
  have hnotMem : ∀ l', v ∉ lists l' := fun l' hv => hnot l' ((h.mem_iff l' v).mp hv)
  refine ⟨h.chain_insert hnotMem, fun l' => ?_, fun l' u => ?_, ?_, ?_⟩
  · by_cases hl : l' = l
    · subst hl
      rw [Function.update_self]
      exact List.nodup_cons.mpr ⟨hnotMem l', h.nodup l'⟩
    · rw [Function.update_of_ne hl]
      exact h.nodup l'
  · by_cases hl : l' = l
    · subst hl
      rw [Function.update_self, List.mem_cons, h.mem_iff]
      simp
    · rw [Function.update_of_ne hl, h.mem_iff]
      simp [hl]
  · rintro u l₁ l₂ (⟨rfl, rfl⟩ | h₁) (⟨hu, rfl⟩ | h₂)
    · rfl
    · exact absurd h₂ (hnot l₂)
    · exact absurd (hu ▸ h₁) (hnot l₁)
    · exact h.unique u l₁ l₂ h₁ h₂
  · rintro u l' (⟨rfl, rfl⟩ | hu)
    · exact Nat.le_max_right _ _
    · exact (h.le_top u l' hu).trans (Nat.le_max_left _ _)

theorem chain_remove (h : b.Holds has lists) {v l : Fin n} (hv : v ∈ lists l) (l' : Fin n) :
    Chain (b.remove v l) none (b.remove v l).heads[l']
      (Function.update lists l ((lists l).erase v) l') := by
  rw [heads_remove]
  by_cases hl : l' = l
  · subst hl
    rw [if_pos rfl, Function.update_self]
    exact (h.chain l').erase (h.nodup l') (fun u _ => (Option.some_ne_none u).symm) hv
      (prev_remove v l') (next_remove v l')
  · rw [if_neg hl, Function.update_of_ne hl]
    refine (h.chain l').congr fun w hw => ?_
    have hafter : b.next[v] ≠ some w := fun heq =>
      h.disjoint hl hw ((h.chain l).mem_of_next hv heq)
    have hbefore : b.prev[v] ≠ some w := by
      intro heq
      rcases (h.chain l).prev_eq_or_mem hv with hnone | ⟨u, hu, hsome⟩
      · exact absurd (heq.symm.trans hnone) (Option.some_ne_none w)
      · exact h.disjoint hl hw (Option.some.inj (heq.symm.trans hsome) ▸ hu)
    rw [prev_remove, next_remove, if_neg hafter, if_neg hbefore]
    exact ⟨rfl, rfl⟩

theorem remove (h : b.Holds has lists) {v l : Fin n} (hv : has v l) :
    (b.remove v l).Holds (fun u l' => u ≠ v ∧ has u l')
      (Function.update lists l ((lists l).erase v)) := by
  refine ⟨h.chain_remove ((h.mem_iff l v).mpr hv), fun l' => ?_, fun l' u => ?_, ?_, ?_⟩
  · by_cases hl : l' = l
    · subst hl
      rw [Function.update_self]
      exact (h.nodup l').erase v
    · rw [Function.update_of_ne hl]
      exact h.nodup l'
  · by_cases hl : l' = l
    · subst hl
      rw [Function.update_self, (h.nodup l').mem_erase_iff, h.mem_iff]
    · rw [Function.update_of_ne hl, h.mem_iff]
      refine ⟨fun hu => ⟨?_, hu⟩, And.right⟩
      rintro rfl
      exact hl (h.unique u l' l hu hv)
  · rintro u l₁ l₂ ⟨-, h₁⟩ ⟨-, h₂⟩
    exact h.unique u l₁ l₂ h₁ h₂
  · rintro u l' ⟨-, hu⟩
    exact h.le_top u l' hu

theorem isEmptyAt_iff (h : b.Holds has lists) (l : Fin n) :
    b.isEmptyAt l = true ↔ ∀ v, ¬ has v l := by
  have hchain := h.chain l
  rw [isEmptyAt, dif_pos l.isLt, Option.isNone_iff_eq_none]
  constructor
  · intro hnone v hv
    have hmem := (h.mem_iff l v).mpr hv
    cases hlist : lists l with
    | nil => simp [hlist] at hmem
    | cons w ws =>
        rw [hlist] at hchain
        exact absurd (hnone.symm.trans hchain.1) (Option.some_ne_none w).symm
  · intro hnot
    have hnil : lists l = [] :=
      List.eq_nil_iff_forall_not_mem.mpr fun v hv => hnot v ((h.mem_iff l v).mp hv)
    rw [hnil] at hchain
    exact hchain

theorem bucket_eq (h : b.Holds has lists) (l : Fin n) : b.bucket l = lists l := by
  rw [bucket, dif_pos l.isLt]
  apply (h.chain l).follow_eq
  simpa using (h.nodup l).length_le_card

theorem insertAt (h : b.Holds has lists) (v : Fin n) (label : Nat) (hnot : ∀ l, ¬ has v l) :
    ∃ lists', (b.insertAt v label).Holds (fun u l => (u = v ∧ l.val = label) ∨ has u l) lists' := by
  by_cases hl : label < n
  · rw [Buckets.insertAt, dif_pos ⟨v.isLt, hl⟩]
    exact ⟨_, (h.insert hnot).congr fun u l => by rw [Fin.ext_iff (a := l)]⟩
  · refine ⟨lists, ?_⟩
    rw [Buckets.insertAt, dif_neg fun hboth => hl hboth.2]
    refine h.congr fun u l => (or_iff_right ?_).symm
    rintro ⟨-, rfl⟩
    exact hl l.isLt

theorem removeAt (h : b.Holds has lists) (v : Fin n) (label : Nat)
    (hv : ∀ l, has v l ↔ l.val = label) :
    ∃ lists', (b.removeAt v label).Holds (fun u l => u ≠ v ∧ has u l) lists' := by
  by_cases hl : label < n
  · rw [Buckets.removeAt, dif_pos ⟨v.isLt, hl⟩]
    exact ⟨_, h.remove ((hv ⟨label, hl⟩).mpr rfl)⟩
  · refine ⟨lists, ?_⟩
    rw [Buckets.removeAt, dif_neg fun hboth => hl hboth.2]
    refine h.congr fun u l => (and_iff_right_of_imp ?_).symm
    rintro hu rfl
    exact hl ((hv l).mp hu ▸ l.isLt)

end Holds

/-- The list of each label holds the nodes with that label. -/
def Tracks (b : Buckets n) (labels : Vector Nat n) : Prop :=
  ∃ lists, b.Holds (fun v l => labels[v] = l.val) lists

theorem Tracks.isEmptyAt_iff {labels : Vector Nat n} (h : b.Tracks labels) (l : Fin n) :
    b.isEmptyAt l = true ↔ ∀ v : Fin n, labels[v] ≠ l := by
  obtain ⟨lists, hlists⟩ := h
  exact hlists.isEmptyAt_iff l

/-- With all heads gone no node is in a list, whatever the links say. -/
theorem holds_empty (b : Buckets n) :
    Holds { b with heads := Vector.replicate n none, top := 0 } (fun _ _ => False) fun _ => [] := by
  refine ⟨fun l => ?_, fun _ => List.nodup_nil, fun _ _ => by simp, fun _ _ _ h => h.elim,
    fun _ _ h => h.elim⟩
  simp [Chain]

theorem holds_foldl_insertAt (b : Buckets n) (labels : Vector Nat n) (k : Nat) (hk : k ≤ n) :
    ∃ lists, ((List.range k).foldl (fun (b : Buckets n) v => b.insertAt v (labels.toArray.getD v n))
      { b with heads := Vector.replicate n none, top := 0 }).Holds
        (fun v l => v.val < k ∧ labels[v] = l.val) lists := by
  induction k with
  | zero => exact ⟨_, (holds_empty b).congr fun v l => by simp⟩
  | succ k ih =>
      obtain ⟨lists, h⟩ := ih (Nat.le_of_succ_le hk)
      have hlabel : labels.toArray.getD k n = labels[k] := by
        simp [Array.getD, show k < n from hk]
      rw [List.range_succ, List.foldl_append, List.foldl_cons, List.foldl_nil, hlabel]
      obtain ⟨lists', h'⟩ := h.insertAt ⟨k, hk⟩ labels[k] fun l hl => Nat.lt_irrefl k hl.1
      refine ⟨lists', h'.congr fun v l => ?_⟩
      constructor
      · rintro (⟨rfl, hl⟩ | ⟨hv, hl⟩)
        · exact ⟨Nat.lt_succ_self k, hl.symm⟩
        · exact ⟨Nat.lt_succ_of_lt hv, hl⟩
      · rintro ⟨hv, hl⟩
        rcases Nat.lt_succ_iff_lt_or_eq.mp hv with hlt | heq
        · exact Or.inr ⟨hlt, hl⟩
        · left
          refine ⟨Fin.ext heq, ?_⟩
          rw [← hl]
          simp only [← heq, Vector.getElem_fin]

theorem tracks_reset (b : Buckets n) (labels : Vector Nat n) :
    (b.reset labels.toArray).Tracks labels := by
  obtain ⟨lists, h⟩ := holds_foldl_insertAt b labels n le_rfl
  refine ⟨lists, ?_⟩
  rw [reset, Vector.size_toArray]
  exact h.congr fun v l => and_iff_right v.isLt

theorem Tracks.move {labels : Vector Nat n} (h : b.Tracks labels) (v : Fin n) (new : Nat) :
    (b.move v labels[v] new).1.Tracks (labels.put v new) := by
  obtain ⟨lists, hlists⟩ := h
  obtain ⟨lists₁, h₁⟩ := hlists.removeAt v labels[v] fun l => eq_comm
  obtain ⟨lists₂, h₂⟩ := h₁.insertAt v new fun l hl => hl.1 rfl
  refine ⟨lists₂, h₂.congr fun u l => ?_⟩
  by_cases hu : u = v
  · subst hu
    simp [eq_comm]
  · rw [Vector.getElem_put_of_ne _ hu]
    simp [hu]

theorem heads_foldl_clear (labels : List Nat) (b : Buckets n) (l : Fin n) :
    (labels.foldl clear b).heads[l] = if l.val ∈ labels then none else b.heads[l] := by
  induction labels generalizing b with
  | nil => simp
  | cons label labels ih =>
      rw [List.foldl_cons, ih]
      by_cases hl : l.val = label
      · simp [clear, hl]
      · have hne : label ≠ l.val := Ne.symm hl
        simp [clear, hl, hne]

theorem links_foldl_clear (labels : List Nat) (b : Buckets n) :
    (labels.foldl clear b).next = b.next ∧ (labels.foldl clear b).prev = b.prev := by
  induction labels generalizing b with
  | nil => exact ⟨rfl, rfl⟩
  | cons label labels ih => exact ih (b.clear label)

theorem mem_labelsAbove_iff (gap : Nat) (l : Fin n) :
    l.val ∈ b.labelsAbove gap ↔ gap < l.val ∧ l.val ≤ b.top := by
  rw [labelsAbove, List.mem_range'_1]
  have := l.isLt
  omega

theorem Tracks.mem_takeAbove_iff {labels : Vector Nat n} (h : b.Tracks labels) (gap : Nat)
    (v : Fin n) : v.val ∈ (b.takeAbove gap).2 ↔ gap < labels[v] ∧ labels[v] < n := by
  obtain ⟨lists, hlists⟩ := h
  simp only [takeAbove, List.mem_flatMap, List.mem_map]
  constructor
  · rintro ⟨label, hlabel, u, hu, heq⟩
    obtain rfl := Fin.ext heq
    by_cases hl : label < n
    · rw [hlists.bucket_eq ⟨label, hl⟩, hlists.mem_iff] at hu
      rw [mem_labelsAbove_iff gap ⟨label, hl⟩] at hlabel
      rw [hu]
      exact ⟨hlabel.1, hl⟩
    · simp [bucket, hl] at hu
  · rintro ⟨hgap, hlt⟩
    have htop := hlists.le_top v ⟨labels[v], hlt⟩ rfl
    refine ⟨labels[v], (mem_labelsAbove_iff gap ⟨labels[v], hlt⟩).mpr ⟨hgap, htop⟩, v, ?_, rfl⟩
    rw [hlists.bucket_eq ⟨labels[v], hlt⟩, hlists.mem_iff]

theorem Tracks.takeAbove {labels labels' : Vector Nat n} (h : b.Tracks labels) {gap : Nat}
    (hlabels : ∀ v : Fin n, labels'[v] =
      if gap < labels[v] ∧ labels[v] < n then n else labels[v]) :
    (b.takeAbove gap).1.Tracks labels' := by
  obtain ⟨lists, hlists⟩ := h
  have hhas : ∀ (v l : Fin n), labels'[v] = l.val ↔ labels[v] = l.val ∧ l.val ≤ gap := by
    intro v l
    have := l.isLt
    rw [hlabels]
    split <;> omega
  obtain ⟨hnext, hprev⟩ := links_foldl_clear (b.labelsAbove gap) b
  refine ⟨fun l => if gap < l.val then [] else lists l, fun l => ?_, fun l => ?_, fun l v => ?_,
    fun v l l' hl hl' => Fin.ext (hl.symm.trans hl'), fun v l hl => ?_⟩
  · have hheads := heads_foldl_clear (b.labelsAbove gap) b l
    simp only [Buckets.takeAbove, hheads, mem_labelsAbove_iff]
    by_cases hgap : gap < l.val
    · rw [if_pos hgap]
      -- lists above the top are not cleared, but no node is in them
      by_cases htop : l.val ≤ b.top
      · exact if_pos ⟨hgap, htop⟩
      · have hchain := hlists.chain l
        have hnil : lists l = [] := List.eq_nil_iff_forall_not_mem.mpr fun v hv =>
          htop (hlists.le_top v l ((hlists.mem_iff l v).mp hv))
        rw [hnil] at hchain
        rw [if_neg fun hboth => htop hboth.2]
        exact hchain
    · rw [if_neg hgap, if_neg fun hboth => hgap hboth.1]
      refine (hlists.chain l).congr fun v _ => ?_
      simp only [hnext, hprev, and_self]
  · split
    · exact List.nodup_nil
    · exact hlists.nodup l
  · rw [hhas]
    split
    next hgap => simp [hgap]
    next hgap => rw [hlists.mem_iff, and_iff_left (Nat.le_of_not_lt hgap)]
  · obtain ⟨hlabel, hgap⟩ := (hhas v l).mp hl
    exact le_min (hlists.le_top v l hlabel) hgap

end PushRelabel.Gap.Buckets
