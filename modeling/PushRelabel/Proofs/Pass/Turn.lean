import PushRelabel.Proofs.Pass.Climb

/-! # The turn of a node

What the discharge of a node does to the round as a whole. Apart from what is sent, it takes
from the node what it has sent, stages its label, and keeps the node in the round if it has
excess left below the sentinel.
-/

namespace PushRelabel.Round

variable {K : Type} [AddCommGroup K] [LinearOrder K] {g : FlowGraph K} {sink v : g.Node}
  {r q : Round g} {left : K} {label : Nat}

/-- What a node does to a round in its turn, in which it keeps some excess and reaches a
label. -/
structure Turn (sink v : g.Node) (r q : Round g) (left : K) (label : Nat) : Prop where
  untouched : r.Untouched q
  fits : g.Fits r.flow → g.Fits q.flow
  own_le : ∀ d ∈ g.darts v, g.residual q.flow d ≤ g.residual r.flow d
  le_others : ∀ u : g.Node, u ≠ v → ∀ d ∈ g.darts u,
    g.residual r.flow d ≤ g.residual q.flow d
  staged_eq : ∀ u : g.Node, q.staged[u] = if u = v then label else r.staged[u]
  left_nonneg : 0 ≤ left
  added_own : q.added[v] = r.added[v] - (r.excess[v] - left)
  added_le : ∀ u : g.Node, u ≠ v → r.added[u] ≤ q.added[u]
  added_eq : ∀ u : g.Node, u ≠ v → u ≠ sink → q.discovered[u] ≠ true → q.added[u] = r.added[u]
  discovered_mono : ∀ u : g.Node, r.discovered[u] = true → q.discovered[u] = true
  found_grows : r.found.toList <+: q.found.toList
  sent : ∀ d ∈ g.darts v, g.residual q.flow d < g.residual r.flow d → Sent sink v r q d
  found_by : ∀ u : g.Node, q.discovered[u] = true → r.discovered[u] = true ∨
    (u = v ∧ 0 < left ∧ label < g.nodeCount) ∨
    ∃ d ∈ g.darts v, d.other = u ∧ g.residual q.flow d < g.residual r.flow d
  stays : 0 < left → label < g.nodeCount → q.discovered[v] = true
  label_ge : r.labels[v] ≤ label
  label_le : label ≤ g.nodeCount
  /-- A node that stays at its label has sent all of its excess to the next label below. -/
  rest : label = r.labels[v] → left ≤ 0 ∧ ∃ d ∈ g.darts v,
    r.labels[v] = r.labels[d.other] + 1 ∧ g.residual q.flow d < g.residual r.flow d
  /-- A node that reaches the sentinel has saturated the darts along which it could send. -/
  saturated : label = g.nodeCount → ∀ d ∈ g.darts v, 0 < g.residual q.flow d →
    r.labels[v] ≤ r.labels[d.other] + 1 → g.nodeCount ≤ r.labels[d.other] + 1
  /-- The first dart that leads to the next label below is used, if none before it is. -/
  used : ∀ as bs d, g.darts v = as ++ d :: bs → r.labels[v] = r.labels[d.other] + 1 →
    0 < g.residual r.flow d → ∃ e ∈ as ++ [d], r.labels[v] = r.labels[e.other] + 1 ∧
      g.residual q.flow e < g.residual r.flow e

/-- What the end of a turn adds to what was sent in it. -/
structure Finish (v : g.Node) (c q : Round g) (sent : K) (label : Nat) (stays : Prop) : Prop where
  flow_eq : q.flow = c.flow
  staged_eq : q.staged = c.staged.put v label
  added_eq : ∀ u : g.Node, q.added[u] = c.added[u] - if u = v then sent else 0
  discovered_iff : ∀ u : g.Node, q.discovered[u] = true ↔ c.discovered[u] = true ∨ u = v ∧ stays
  found_grows : c.found.toList <+: q.found.toList

theorem finish_spend (c : Round g) (v : g.Node) (label : Nat) {sent : K} (hsent : 0 ≤ sent) :
    Finish v c ((c.staging v label).spend v sent) sent label False := by
  have hadded := added_spend (c.staging v label) v
  refine ⟨?_, ?_, fun u => hadded u hsent, fun u => ?_, ?_⟩
  · unfold spend
    split <;> rfl
  · unfold spend
    split <;> rfl
  · rw [and_false, or_false]
    unfold spend
    split <;> rfl
  · unfold spend
    split <;> exact List.prefix_rfl

omit [LinearOrder K] in
theorem Finish.discover {sent : K} (h : Finish v r q sent label False) :
    Finish v r (q.discover v) sent label True := by
  have hsame : (q.discover v).flow = q.flow ∧ (q.discover v).staged = q.staged ∧
      (q.discover v).added = q.added := by
    unfold Round.discover
    split <;> exact ⟨rfl, rfl, rfl⟩
  refine ⟨hsame.1.trans h.flow_eq, hsame.2.1.trans h.staged_eq, fun u => ?_, fun u => ?_,
    h.found_grows.trans (found_grows_discover q v)⟩
  · rw [hsame.2.2]
    exact h.added_eq u
  · rw [discovered_discover, h.discovered_iff, and_false, or_false, and_true]

variable [IsOrderedAddMonoid K]

theorem finish_discharge (sink v : g.Node) (r : Round g) (hexcess : 0 ≤ r.excess[v]) :
    Finish v (climb sink v r.labels[v] r.excess[v] r).1 (r.discharge sink v)
      (r.excess[v] - (climb sink v r.labels[v] r.excess[v] r).2.1)
      (climb sink v r.labels[v] r.excess[v] r).2.2
      (0 < (climb sink v r.labels[v] r.excess[v] r).2.1 ∧
        (climb sink v r.labels[v] r.excess[v] r).2.2 < g.nodeCount) := by
  have hleft := (left_climb sink v r.labels[v] r.excess[v] r hexcess).2
  rcases hclimb : climb sink v r.labels[v] r.excess[v] r with ⟨c, left, label⟩
  rw [hclimb] at hleft
  have hspent := finish_spend c v label (sub_nonneg.mpr hleft)
  rw [discharge_eq hclimb]
  split
  next hstays =>
    rw [eq_true hstays]
    exact hspent.discover
  next hstays =>
    rw [eq_false hstays]
    exact hspent

theorem turn_discharge (hproper : g.Proper) (sink : g.Node) (hlabel : r.labels[v] < g.nodeCount)
    (hexcess : 0 < r.excess[v]) :
    ∃ left label, Turn sink v r (r.discharge sink v) left label := by
  have hout := (keptByClimbing_outflow hproper sink v r hlabel).climb r.excess[v]
    (outflow_refl sink v r)
  have hleft := left_climb sink v r.labels[v] r.excess[v] r hexcess.le
  have hbounds := label_climb hproper sink v r.excess[v] r hlabel
  have hfinish := finish_discharge sink v r hexcess.le
  have hflow := hfinish.flow_eq
  have hadded : ∀ u : g.Node, u ≠ v → (r.discharge sink v).added[u] =
      (climb sink v r.labels[v] r.excess[v] r).1.added[u] := by
    intro u hu
    rw [hfinish.added_eq, if_neg hu, sub_zero]
  have hmono : ∀ u : g.Node,
      (climb sink v r.labels[v] r.excess[v] r).1.discovered[u] = true →
        (r.discharge sink v).discovered[u] = true :=
    fun u hu => (hfinish.discovered_iff u).mpr (Or.inl hu)
  -- all sending is done by climbing; what comes after it changes only the node itself
  refine ⟨_, _,
    { untouched := untouched_discharge sink v r
      fits := fun hfits => hflow ▸ hout.fits hfits
      own_le := fun d hd => hflow ▸ hout.own_le d hd
      le_others := fun u hu d hd => hflow ▸ hout.le_others u hu d hd
      staged_eq := fun u => ?staged
      left_nonneg := hleft.1
      added_own := ?own
      added_le := fun u hu => (hout.added_le u).trans (hadded u hu).ge
      added_eq := fun u hu hsink hfound => ?unheard
      discovered_mono := fun u hu => hmono u (hout.discovered_mono u hu)
      found_grows := hout.found_grows.trans hfinish.found_grows
      sent := fun d hd hlt => ?sent
      found_by := fun u hu => ?found
      stays := fun hpos hlt => (hfinish.discovered_iff v).mpr (Or.inr ⟨rfl, hpos, hlt⟩)
      label_ge := hbounds.1
      label_le := hbounds.2
      rest := fun hstays => ?rest
      saturated := fun hends d hd hopen hle => ?saturated
      used := fun as bs d hdarts hdown hopen => ?used }⟩
  case staged => rw [hfinish.staged_eq, Vector.getElem_put, hout.staged_eq]
  case own => rw [hfinish.added_eq, if_pos rfl, hout.added_own]
  case unheard =>
    rw [Ne, hfinish.discovered_iff, not_or] at hfound
    rw [hadded u hu]
    exact hout.added_eq u hsink hfound.1
  case sent =>
    rw [hflow] at hlt
    exact (hout.sent d hd hlt).mono (hadded d.other (hproper.other_ne hd)).ge hmono
  case found =>
    rw [hflow]
    rcases (hfinish.discovered_iff u).mp hu with hold | hself
    · exact (hout.found_by u hold).imp_right Or.inr
    · exact Or.inr (Or.inl hself)
  case rest =>
    rw [hflow]
    have hrest := rest_climb hproper sink r.excess[v] hlabel hstays
    exact ⟨hrest.1, hrest.2 hexcess⟩
  case saturated =>
    rw [hflow] at hopen
    exact hends.ge.trans
      (label_climb_le_of_open hproper sink v r.excess[v] r hlabel hd hopen hle)
  case used =>
    rw [hflow]
    exact used_climb hproper sink hexcess hdarts hdown hlabel hopen

end PushRelabel.Round
