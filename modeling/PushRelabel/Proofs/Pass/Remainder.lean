import PushRelabel.Proofs.Pass.Climb
import PushRelabel.Proofs.Rounded

/-! # What a turn leaves

Excess may be rounded, but a node that took its turn has either spent all of its excess, so that
nothing is left when its account is settled, or it is retired, or it was discovered. A node that
was not discovered is sent nothing after its turn.
-/

namespace PushRelabel.Round

open Quantity (isFinite Rounded)

variable {K : Type} {g : FlowGraph K} {sink u v : g.Node} {r : Round g}

variable [Quantity K] {label : Nat} {P : K → Nat → Prop}

/-! ## Nodes that nobody sends to -/

/-- A node is discovered, or what was added to it and the label that it has staged have a
property. -/
def Unheard (r : Round g) (u : g.Node) (P : K → Nat → Prop) : Prop :=
  r.discovered[u] = true ∨ P r.added[u] r.staged[u]

omit [Quantity K] in
theorem Unheard.discover (h : r.Unheard u P) (v : g.Node) : (r.discover v).Unheard u P := by
  rw [Unheard, discovered_discover, added_discover, staged_discover]
  exact h.imp_left Or.inl

theorem added_send_of_ne (s : Scan g) (sink : g.Node) {d : g.DartOf} (hu : u ≠ d.other) :
    (s.send sink d).round.added[u] = s.round.added[u] := by
  have hadd : (s.send sink d).round.added = s.round.added.put d.other
      (s.round.added[d.other] + Quantity.least s.left (g.residual s.round.flow d)) := by
    unfold Scan.send
    dsimp only
    split
    · rfl
    · exact added_discover _ _
  rw [hadd, Vector.getElem_put, if_neg hu]

theorem Unheard.send {s : Scan g} (h : s.round.Unheard u P) (hu : u ≠ sink) (d : g.DartOf) :
    (s.send sink d).round.Unheard u P := by
  by_cases hother : u = d.other
  · exact Or.inl ((discovered_send s sink d u).mpr (Or.inr ⟨hother, hother ▸ hu⟩))
  · rw [Unheard, discovered_send, added_send_of_ne s sink hother, staged_send]
    exact h.imp_left Or.inl

theorem Unheard.climb (h : r.Unheard u P) (hu : u ≠ sink) (v : g.Node) (label : Nat) (left : K) :
    (climb sink v label left r).1.Unheard u P := by
  have hsend : KeptByClimbing sink v label fun q _ => q.Unheard u P :=
    fun _ _ _ _ d _ hs => hs.send hu d
  exact hsend.climb left h

theorem Unheard.discharge (h : r.Unheard u P) (hu : u ≠ sink) (hne : u ≠ v) :
    (r.discharge sink v).Unheard u P := by
  have hclimbed := h.climb hu v r.labels[v] r.excess[v]
  rcases hclimb : Round.climb sink v r.labels[v] r.excess[v] r with ⟨c, left, label⟩
  rw [hclimb] at hclimbed
  have hspent : ((c.staging v label).spend v (r.excess[v] - left)).Unheard u P := by
    rw [Unheard, discovered_spend, staged_spend, added_spend_of_ne _ hne, staging,
      Vector.getElem_put, if_neg hne]
    exact hclimbed
  rw [discharge_eq hclimb]
  split
  · exact hspent.discover v
  · exact hspent

theorem Unheard.foldl_discharge {vs : List g.Node} (h : r.Unheard u P) (hu : u ≠ sink)
    (hvs : u ∉ vs) : (vs.foldl (fun r v => r.discharge sink v) r).Unheard u P := by
  induction vs generalizing r with
  | nil => exact h
  | cons v vs ih =>
      exact ih (h.discharge hu (List.ne_of_not_mem_cons hvs)) (List.not_mem_of_not_mem_cons hvs)

/-! ## The turn of a node -/

variable [Rounded K]

/-- What is left to a node stays a number, and does not fall below zero. -/
theorem isFinite_left_send (s : Scan g) {d : g.DartOf} (hd : s.Admits sink v label d)
    (hfinite : isFinite s.left = true) :
    isFinite (s.send sink d).left = true ∧
      ((s.send sink d).left ≤ 0 → (s.send sink d).left = 0) := by
  have hself : s.left ≤ s.left := Rounded.le_refl hfinite
  change isFinite (s.left - Quantity.least _ _) = true ∧ (s.left - Quantity.least _ _ ≤ 0 → _)
  change _ ∧ (_ → s.left - Quantity.least _ _ = 0)
  unfold Quantity.least
  split
  next =>
    rw [Rounded.sub_self hfinite]
    exact ⟨Rounded.isFinite_zero, fun _ => rfl⟩
  next hleast =>
    rw [not_or, not_not] at hleast
    have hresidual := Rounded.pos_of_not_le_zero hleast.2 hd.residual_pos
    obtain ⟨hrest, hpos⟩ :=
      Rounded.sub_pos hfinite hresidual (Rounded.lt_of_not_le hself hleast.2 hleast.1)
    exact ⟨hrest, fun hle => absurd hle (Rounded.not_le_of_lt hpos)⟩

theorem isFinite_left_climb (sink v : g.Node) (label : Nat) {left : K} (r : Round g)
    (hfinite : isFinite left = true) (hpos : 0 < left) :
    isFinite (climb sink v label left r).2.1 = true ∧
      ((climb sink v label left r).2.1 ≤ 0 → (climb sink v label left r).2.1 = 0) := by
  have hsend : KeptByClimbing sink v label fun _ rest =>
      isFinite rest = true ∧ (rest ≤ 0 → rest = 0) :=
    fun _ _ _ s _ hd hs => isFinite_left_send s hd hs.1
  exact hsend.climb (r := r) left ⟨hfinite, fun hle => absurd hle (Rounded.not_le_of_lt hpos)⟩

/-- A node with some excess is discovered, or will be retired, or is left with nothing. -/
def Done (r : Round g) (v : g.Node) (excess : K) : Prop :=
  r.Unheard v fun added staged => g.nodeCount ≤ staged ∨ excess + added = 0

theorem done_discharge (hv : v ≠ sink) (hfinite : isFinite r.excess[v] = true)
    (hpos : 0 < r.excess[v]) (hadded : r.Unheard v fun added _ => added = 0) :
    (r.discharge sink v).Done v r.excess[v] := by
  have hclimbed := hadded.climb hv v r.labels[v] r.excess[v]
  have hleft := isFinite_left_climb sink v r.labels[v] r hfinite hpos
  rcases hclimb : Round.climb sink v r.labels[v] r.excess[v] r with ⟨c, left, label⟩
  rw [hclimb] at hclimbed hleft
  obtain ⟨hrest, hzero⟩ := hleft
  rw [discharge_eq hclimb]
  split
  next => exact Or.inl ((discovered_discover _ v v).mpr (Or.inr rfl))
  next hstays =>
    rw [not_and] at hstays
    rcases hclimbed with hdiscovered | hadded
    · left
      rwa [discovered_spend]
    right
    by_cases hlabel : label < g.nodeCount
    · right
      have hgone : left = 0 := by
        refine hzero ?_
        by_contra hle
        exact hstays (Rounded.pos_of_not_le_zero (Rounded.le_refl hrest) hle) hlabel
      -- all of the excess was sent, so taking it away leaves nothing
      have hsent : r.excess[v] - left = r.excess[v] := by rw [hgone, Rounded.sub_zero hfinite]
      rw [hsent, spend, if_pos hpos, add, Vector.getElem_put, if_pos rfl]
      change r.excess[v] + (c.added[v] + -r.excess[v]) = 0
      rw [hadded]
      exact Rounded.add_neg_self hfinite
    · left
      rw [staged_spend, staging, Vector.getElem_put, if_pos rfl]
      exact Nat.le_of_not_lt hlabel

/-- After the turns of distinct nodes, each of them is done. -/
theorem done_foldl_discharge {vs : List g.Node} (hnodup : vs.Nodup) (hv : v ∈ vs) (hsink : v ≠ sink)
    (hfinite : isFinite r.excess[v] = true) (hpos : 0 < r.excess[v]) (hadded : r.added[v] = 0) :
    (vs.foldl (fun r v => r.discharge sink v) r).Done v r.excess[v] := by
  obtain ⟨before, after, rfl⟩ := List.append_of_mem hv
  obtain ⟨-, hrest, hdisjoint⟩ := List.nodup_append.mp hnodup
  have hbefore : v ∉ before := fun hmem => hdisjoint v hmem v List.mem_cons_self rfl
  rw [List.foldl_append, List.foldl_cons]
  have hunheard : r.Unheard v fun added _ => added = 0 := Or.inr hadded
  have hturn := hunheard.foldl_discharge hsink hbefore
  rw [← (untouched_foldl_discharge sink before r).excess_eq] at hfinite hpos ⊢
  exact (done_discharge hsink hfinite hpos hturn).foldl_discharge hsink (List.nodup_cons.mp hrest).1

end PushRelabel.Round
