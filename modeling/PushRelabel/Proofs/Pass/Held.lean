import PushRelabel.Proofs.Pass.Round

/-! # What nodes hold while a round runs

A node holds its excess at the start of the round and what was added since. For the
node that is being discharged, what it has left to send stands in place of the former.
Seen this way each dart along which a discharge sends is one step of a preflow, so it
stays balanced; a node never sends what was added to it in the same round.
-/

namespace PushRelabel.Round

variable {K : Type} [AddCommGroup K] [LinearOrder K] {g : FlowGraph K} {giver sink v : g.Node}
  {start : Preflow g} {todo : List g.Node} {r : Round g} {left : K}

def view (r : Round g) : Preflow g where
  flow := r.flow
  excess := Vector.ofFn fun w => r.excess[w] + r.added[w]
  labels := r.labels

/-- The view of a round in which a node has some excess left to send. -/
def holding (r : Round g) (v : g.Node) (left : K) : Preflow g where
  flow := r.flow
  excess := Vector.ofFn fun w => (if w = v then left else r.excess[w]) + r.added[w]
  labels := r.labels

omit [LinearOrder K] in
theorem excess_view (r : Round g) (w : g.Node) : r.view.excess[w] = r.excess[w] + r.added[w] := by
  simp [view]

omit [LinearOrder K] in
theorem excess_holding (r : Round g) (v : g.Node) (left : K) (w : g.Node) :
    (r.holding v left).excess[w] = (if w = v then left else r.excess[w]) + r.added[w] := by
  simp [holding]

theorem left_send (s : Scan g) (sink : g.Node) (d : g.DartOf) :
    (s.send sink d).left = s.left - min s.left (g.residual s.round.flow d) := by
  rw [Scan.send, Quantity.least_eq_min]

theorem flow_send (s : Scan g) (sink : g.Node) (d : g.DartOf) :
    (s.send sink d).round.flow =
      g.push s.round.flow d (min s.left (g.residual s.round.flow d)) := by
  unfold Scan.send Round.discover
  rw [Quantity.least_eq_min]
  dsimp only
  split
  · rfl
  · split <;> rfl

theorem added_send (s : Scan g) (sink : g.Node) (d : g.DartOf) (w : g.Node) :
    (s.send sink d).round.added[w] = s.round.added[w] +
      if w = d.other then min s.left (g.residual s.round.flow d) else 0 := by
  have hadd : (s.send sink d).round.added = s.round.added.put d.other
      (s.round.added[d.other] + min s.left (g.residual s.round.flow d)) := by
    unfold Scan.send Round.discover
    rw [Quantity.least_eq_min]
    dsimp only
    split
    · rfl
    · split <;> rfl
  rw [hadd, Vector.getElem_put]
  by_cases hw : w = d.other
  · rw [if_pos hw, if_pos hw, hw]
  · rw [if_neg hw, if_neg hw, add_zero]

/-- Sending along a dart is a step of the view. -/
theorem excess_holding_send (s : Scan g) (sink v : g.Node) (d : g.DartOf) :
    ((s.send sink d).round.holding v (s.send sink d).left).excess =
      ((s.round.holding v s.left).send v d
        (min s.left (g.residual s.round.flow d))).excess := by
  apply Vector.ext_fin
  intro w
  rw [Preflow.excess_send, excess_holding, excess_holding, added_send,
    (untouched_send s sink d).excess_eq, left_send]
  split <;> abel

structure Holds (start : Preflow g) (giver : g.Node) (todo : List g.Node) (r : Round g) :
    Prop where
  balanced : start.Balanced giver r.view
  added_nonneg : ∀ v ∈ todo, 0 ≤ r.added[v]

namespace Scan.Admits

variable {s : Scan g} {sink v : g.Node} {label : Nat} {d : g.DartOf}

theorem amount_pos (h : s.Admits sink v label d) :
    0 < min s.left (g.residual s.round.flow d) :=
  lt_min (not_le.mp h.left_pos) (not_le.mp h.residual_pos)

variable [IsOrderedAddMonoid K]

theorem left_send_le (h : s.Admits sink v label d) : (s.send sink d).left ≤ s.left := by
  rw [left_send]
  exact sub_le_self _ h.amount_pos.le

theorem added_le_send (h : s.Admits sink v label d) (u : g.Node) :
    s.round.added[u] ≤ (s.send sink d).round.added[u] := by
  rw [added_send]
  split
  · exact le_add_of_nonneg_right h.amount_pos.le
  · rw [add_zero]

end Scan.Admits

variable [IsOrderedAddMonoid K]

/-- What holds while a node is discharged that has some excess left. -/
structure Sending (start : Preflow g) (giver v : g.Node) (todo : List g.Node) (initial : K)
    (r : Round g) (left : K) : Prop where
  balanced : start.Balanced giver (r.holding v left)
  added_nonneg : ∀ w ∈ v :: todo, 0 ≤ r.added[w]
  left_le : left ≤ initial

theorem keptByClimbing_sending (sink v : g.Node) (label : Nat) (initial : K) :
    KeptByClimbing sink v label (Sending start giver v todo initial) := by
  intro _ _ _ s d hadmits h
  -- what was added to the node in this round is on top of what it may still send
  have hheld : min s.left (g.residual s.round.flow d) ≤ (s.round.holding v s.left).excess[v] := by
    rw [excess_holding, if_pos rfl]
    exact (min_le_left _ _).trans
      (le_add_of_nonneg_right (h.added_nonneg v List.mem_cons_self))
  refine ⟨?_, fun w hw => (h.added_nonneg w hw).trans (hadmits.added_le_send w),
    hadmits.left_send_le.trans h.left_le⟩
  have hsent := h.balanced.send hadmits.mem_darts hadmits.amount_pos.le (min_le_right _ _)
    fun _ => hheld
  exact hsent.congr (flow_send s sink d) (excess_holding_send s sink v d)

omit [IsOrderedAddMonoid K] in
theorem added_spend (r : Round g) (v w : g.Node) {sent : K} (hsent : 0 ≤ sent) :
    (r.spend v sent).added[w] = r.added[w] - if w = v then sent else 0 := by
  unfold spend
  split
  next =>
    rw [add, Vector.getElem_put]
    by_cases hw : w = v
    · rw [if_pos hw, if_pos hw, hw, sub_eq_add_neg]
    · rw [if_neg hw, if_neg hw, sub_zero]
  next hnot =>
    obtain rfl : sent = 0 := le_antisymm (not_lt.mp hnot) hsent
    rw [ite_self, sub_zero]

omit [IsOrderedAddMonoid K] in
theorem Holds.discover (h : r.Holds start giver todo) (v : g.Node) :
    (r.discover v).Holds start giver todo := by
  unfold Round.discover
  split
  · exact h
  · exact ⟨h.balanced, h.added_nonneg⟩

/-- What a node has sent is taken from it when its discharge ends. -/
theorem Sending.finish {c : Round g} {initial : K} (h : Sending start giver v todo initial c left)
    (hexcess : c.excess[v] = initial) (hv : v ∉ todo) (label : Nat) :
    ((c.staging v label).spend v (initial - left)).Holds start giver todo := by
  have hsent : 0 ≤ initial - left := sub_nonneg.mpr h.left_le
  have hsame : ((c.staging v label).spend v (initial - left)).flow = c.flow ∧
      ((c.staging v label).spend v (initial - left)).excess = c.excess := by
    unfold spend
    split <;> exact ⟨rfl, rfl⟩
  refine ⟨h.balanced.congr hsame.1 ?_, fun w hw => ?_⟩
  · apply Vector.ext_fin
    intro w
    rw [excess_view, excess_holding, added_spend _ _ _ hsent, hsame.2]
    split
    next heq =>
      rw [heq, hexcess]
      change initial + (c.added[v] - (initial - left)) = left + c.added[v]
      abel
    next => rw [sub_zero]; rfl
  · rw [added_spend _ _ _ hsent, if_neg (fun heq : w = v => hv (heq ▸ hw)), sub_zero]
    exact h.added_nonneg w (List.mem_cons_of_mem v hw)

theorem Holds.discharge (h : r.Holds start giver (v :: todo)) (hv : v ∉ todo) :
    (r.discharge sink v).Holds start giver todo := by
  have hstart : Sending start giver v todo r.excess[v] r r.excess[v] := by
    refine ⟨h.balanced.congr rfl ?_, h.added_nonneg, le_rfl⟩
    apply Vector.ext_fin
    intro w
    rw [excess_holding, excess_view]
    split
    next heq => rw [heq]
    next => rfl
  have hsending :=
    (keptByClimbing_sending sink v r.labels[v] r.excess[v]).climb r.excess[v] hstart
  have hexcess := (untouched_climb sink v r.labels[v] r.excess[v] r).excess_eq
  rcases hclimb : climb sink v r.labels[v] r.excess[v] r with ⟨c, left, label⟩
  rw [hclimb] at hsending hexcess
  have hdone := hsending.finish (by rw [hexcess]) hv label
  rw [discharge_eq hclimb]
  split
  · exact hdone.discover v
  · exact hdone

theorem Holds.foldl_discharge (h : r.Holds start giver todo) (hnodup : todo.Nodup)
    (sink : g.Node) :
    (todo.foldl (fun r v => r.discharge sink v) r).Holds start giver [] := by
  induction todo generalizing r with
  | nil => exact h
  | cons v todo ih =>
      obtain ⟨hv, hrest⟩ := List.nodup_cons.mp hnodup
      exact ih (h.discharge hv) hrest

/-! Settling moves excess from one place to the other, and labels do not matter. -/

omit [IsOrderedAddMonoid K]

/-- Nodes hold the same in both rounds, and arcs carry the same. -/
structure SameHeld (r q : Round g) : Prop where
  flow_eq : q.flow = r.flow
  held_eq : ∀ v : g.Node, q.excess[v] + q.added[v] = r.excess[v] + r.added[v]

omit [LinearOrder K] in
theorem SameHeld.trans {q t : Round g} (h : SameHeld r q) (ht : SameHeld q t) : SameHeld r t :=
  ⟨ht.flow_eq.trans h.flow_eq, fun v => (ht.held_eq v).trans (h.held_eq v)⟩

omit [LinearOrder K] in
theorem SameHeld.foldl {f : Round g → g.Node → Round g} (hf : ∀ r v, SameHeld r (f r v))
    (vs : List g.Node) (r : Round g) : SameHeld r (vs.foldl f r) := by
  induction vs generalizing r with
  | nil => exact ⟨rfl, fun _ => rfl⟩
  | cons v vs ih => exact (hf r v).trans (ih _)

theorem sameHeld_settle (r : Round g) (v : g.Node) : SameHeld r (r.settle v) := by
  refine ⟨rfl, fun w => ?_⟩
  rw [Round.settle, Vector.getElem_put, Vector.getElem_put]
  by_cases heq : w = v
  · rw [if_pos heq, if_pos heq, add_zero, heq]
  · rw [if_neg heq, if_neg heq]

theorem sameHeld_commit (r : Round g) (v : g.Node) : SameHeld r (r.commit v) := by
  unfold Round.commit
  dsimp only
  refine SameHeld.trans ?_ (sameHeld_settle _ v)
  split
  · exact ⟨rfl, fun _ => rfl⟩
  · unfold Round.setLabel
    dsimp only
    split <;> exact ⟨rfl, fun _ => rfl⟩

omit [LinearOrder K] in
theorem sameHeld_closeGap (r : Round g) : SameHeld r r.closeGap := by
  unfold Round.closeGap
  dsimp only
  split <;> exact ⟨rfl, fun _ => rfl⟩

theorem sameHeld_settleFound (r : Round g) : SameHeld r r.settleFound := by
  rw [settleFound_eq]
  refine SameHeld.foldl (fun r v => ?_) _ _
  have hcleared : SameHeld r { r with discovered := r.discovered.put v false } :=
    ⟨rfl, fun _ => rfl⟩
  exact hcleared.trans (sameHeld_settle _ v)

/-- What follows the turns of a round. -/
theorem sameHeld_ending (r : Round g) (vs : List g.Node) (sink : g.Node) :
    SameHeld r (r.ending sink vs) := by
  have hcommitted := SameHeld.foldl (fun r v => sameHeld_commit r v) vs r
  have hclosed := (hcommitted.trans (sameHeld_closeGap _)).trans (sameHeld_settleFound _)
  exact (hclosed.trans (sameHeld_settle _ sink)).trans ⟨rfl, fun _ => rfl⟩

theorem Holds.congr (h : r.Holds start giver []) {q : Round g} (hsame : SameHeld r q) :
    q.Holds start giver [] := by
  refine ⟨h.balanced.congr hsame.flow_eq ?_, fun v hv => absurd hv List.not_mem_nil⟩
  apply Vector.ext_fin
  intro v
  rw [excess_view, excess_view]
  exact hsame.held_eq v

/-- Where nothing is unsettled, nodes hold their excess. -/
theorem holds_iff_balanced (hadded : ∀ v : g.Node, r.added[v] = 0) (todo : List g.Node) :
    r.Holds start giver todo ↔ start.Balanced giver r.toPreflow := by
  have hexcess : r.view.excess = r.excess := by
    apply Vector.ext_fin
    intro w
    rw [excess_view, hadded, add_zero]
  constructor
  · intro h
    exact h.balanced.congr rfl hexcess.symm
  · intro h
    exact ⟨h.congr rfl hexcess, fun v _ => (hadded v).ge⟩

end PushRelabel.Round
