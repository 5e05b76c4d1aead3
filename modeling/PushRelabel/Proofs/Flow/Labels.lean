import PushRelabel.Proofs.Flow.Cut
import PushRelabel.Proofs.Tables

/-! # Valid labels

Labels are valid for a pass from a source to a sink if no residual dart of a node,
other than the source, descends by more than one label. There are more labels below
the sentinel than nodes other than the source, so some label is unused; the nodes
above it are one side of a cut that no residual dart leaves, except from the source.
Where some darts are excused from this rule, the same is true of the other darts.
-/

namespace PushRelabel.FlowGraph

variable {K : Type}

structure ValidLabels [Quantity K] (g : FlowGraph K) (flow : g.Flow)
    (labels : Vector Nat g.nodeCount) (source sink : g.Node) : Prop where
  sink_eq : labels[sink] = 0
  source_eq : labels[source] = g.nodeCount
  le_nodeCount : ∀ v : g.Node, labels[v] ≤ g.nodeCount
  le_succ : ∀ u : g.Node, u ≠ source → ∀ d ∈ g.darts u, 0 < g.residual flow d →
    labels[u] ≤ labels[d.other] + 1

/-- What makes labels valid, of all darts but some that are excused. -/
structure ValidExcept [Quantity K] (g : FlowGraph K) (excused : Set g.DartOf) (flow : g.Flow)
    (labels : Vector Nat g.nodeCount) (source sink : g.Node) : Prop where
  sink_eq : labels[sink] = 0
  source_eq : labels[source] = g.nodeCount
  le_nodeCount : ∀ v : g.Node, labels[v] ≤ g.nodeCount
  le_succ : ∀ u : g.Node, u ≠ source → ∀ d ∈ g.darts u, d ∉ excused → 0 < g.residual flow d →
    labels[u] ≤ labels[d.other] + 1

/-- The nodes above a label. -/
def above (g : FlowGraph K) (labels : Vector Nat g.nodeCount) (level : Nat) : Finset g.Node :=
  Finset.univ.filter fun v : g.Node => level < labels[v]

theorem mem_above {g : FlowGraph K} {labels : Vector Nat g.nodeCount} {level : Nat} {v : g.Node} :
    v ∈ g.above labels level ↔ level < labels[v] := by
  simp [above]

/-- Sending along a dart can make only its opposite residual. -/
theorem residual_push_le [AddCommGroup K] [LinearOrder K] [IsOrderedAddMonoid K] {g : FlowGraph K}
    (flow : g.Flow) {d e : g.DartOf} {a : K} (ha : 0 ≤ a)
    (h : ¬ (e.arc = d.arc ∧ e.reversed ≠ d.reversed)) :
    g.residual (g.push flow d a) e ≤ g.residual flow e := by
  rw [residual_push]
  by_cases harc : e.arc = d.arc
  · have hreversed : e.reversed = d.reversed := not_not.mp fun hne => h ⟨harc, hne⟩
    rw [if_pos harc, if_pos hreversed]
    exact add_le_of_nonpos_right (neg_nonpos.mpr ha)
  · rw [if_neg harc, add_zero]

section Order

variable [Quantity K] {g : FlowGraph K} {flow : g.Flow} {labels : Vector Nat g.nodeCount}
  {source sink : g.Node}

namespace ValidExcept

variable {excused : Set g.DartOf}

theorem validLabels (h : g.ValidExcept ∅ flow labels source sink) :
    g.ValidLabels flow labels source sink :=
  ⟨h.sink_eq, h.source_eq, h.le_nodeCount,
    fun u hu d hd => h.le_succ u hu d hd (Set.notMem_empty d)⟩

/-- The nodes other than the source are fewer than the labels below the sentinel. -/
theorem exists_unused (h : g.ValidExcept excused flow labels source sink) :
    ∃ level < g.nodeCount, ∀ v : g.Node, labels[v] ≠ level := by
  -- pigeonhole: the image of the other nodes cannot cover all labels below the sentinel
  have hcard : ((Finset.univ.erase source).image fun v : g.Node => labels[v]).card <
      (Finset.range g.nodeCount).card := by
    calc ((Finset.univ.erase source).image fun v : g.Node => labels[v]).card
        ≤ (Finset.univ.erase source).card := Finset.card_image_le
      _ < (Finset.univ : Finset g.Node).card := Finset.card_erase_lt_of_mem (Finset.mem_univ source)
      _ = (Finset.range g.nodeCount).card := by rw [Finset.card_univ, Fintype.card_fin,
          Finset.card_range]
  obtain ⟨level, hrange, hnot⟩ := Finset.exists_mem_notMem_of_card_lt_card hcard
  have hlt := Finset.mem_range.mp hrange
  refine ⟨level, hlt, fun v heq => hnot ?_⟩
  refine Finset.mem_image.mpr ⟨v, Finset.mem_erase.mpr ⟨fun hsource => ?_, Finset.mem_univ v⟩, heq⟩
  rw [hsource, h.source_eq] at heq
  omega

theorem sink_notMem_above (h : g.ValidExcept excused flow labels source sink) (level : Nat) :
    sink ∉ g.above labels level := by
  rw [mem_above, h.sink_eq]
  exact Nat.not_lt_zero level

/-- Only excused darts lead down across an unused label while they are residual. -/
theorem not_residual_of_above (h : g.ValidExcept excused flow labels source sink) {level : Nat}
    (hunused : ∀ v : g.Node, labels[v] ≠ level) {u : g.Node} (hne : u ≠ source)
    (hu : u ∈ g.above labels level) {d : g.DartOf} (hd : d ∈ g.darts u) (hexcused : d ∉ excused)
    (hother : d.other ∉ g.above labels level) : ¬ 0 < g.residual flow d := by
  intro hresidual
  have hle := h.le_succ u hne d hd hexcused hresidual
  rw [mem_above] at hu hother
  have := hunused d.other
  omega

/-- Retiring the nodes above an unused label leaves the labels as valid as they were. -/
theorem retire (h : g.ValidExcept excused flow labels source sink) {gap : Nat}
    (hunused : ∀ v : g.Node, labels[v] ≠ gap) {labels' : Vector Nat g.nodeCount}
    (hlabels : ∀ v : g.Node, labels'[v] =
      if gap < labels[v] ∧ labels[v] < g.nodeCount then g.nodeCount else labels[v]) :
    g.ValidExcept excused flow labels' source sink := by
  refine ⟨?_, ?_, fun u => ?_, fun u hu d hd hexcused hresidual => ?_⟩
  · have := h.sink_eq
    rw [hlabels, if_neg (by omega), this]
  · have := h.source_eq
    rw [hlabels, if_neg (by omega), this]
  · have := h.le_nodeCount u
    rw [hlabels]
    split <;> omega
  · have hstep := h.le_succ u hu d hd hexcused hresidual
    have hother := hunused d.other
    have hle := h.le_nodeCount u
    rw [hlabels u, hlabels d.other]
    split <;> split <;> omega

end ValidExcept

namespace ValidLabels

/-- Valid labels are valid with any excuse. -/
theorem validExcept (h : g.ValidLabels flow labels source sink) (excused : Set g.DartOf) :
    g.ValidExcept excused flow labels source sink :=
  ⟨h.sink_eq, h.source_eq, h.le_nodeCount, fun u hu d hd _ => h.le_succ u hu d hd⟩

/-- The nodes other than the source are fewer than the labels below the sentinel. -/
theorem exists_unused (h : g.ValidLabels flow labels source sink) :
    ∃ level < g.nodeCount, ∀ v : g.Node, labels[v] ≠ level :=
  (h.validExcept ∅).exists_unused

theorem source_mem_above (h : g.ValidLabels flow labels source sink) {level : Nat}
    (hlevel : level < g.nodeCount) : source ∈ g.above labels level := by
  rw [mem_above, h.source_eq]
  exact hlevel

theorem sink_notMem_above (h : g.ValidLabels flow labels source sink) (level : Nat) :
    sink ∉ g.above labels level :=
  (h.validExcept ∅).sink_notMem_above level

/-- No residual dart leads down across an unused label. -/
theorem not_residual_of_above (h : g.ValidLabels flow labels source sink) {level : Nat}
    (hunused : ∀ v : g.Node, labels[v] ≠ level) {u : g.Node} (hne : u ≠ source)
    (hu : u ∈ g.above labels level) {d : g.DartOf} (hd : d ∈ g.darts u)
    (hother : d.other ∉ g.above labels level) : ¬ 0 < g.residual flow d :=
  (h.validExcept ∅).not_residual_of_above hunused hne hu hd (Set.notMem_empty d) hother

/-- Raising the label of a node is valid as far as its residual darts allow. -/
theorem raise (h : g.ValidLabels flow labels source sink) {v : g.Node} (hsource : v ≠ source)
    (hsink : v ≠ sink) {label : Nat} (hge : labels[v] ≤ label) (hle : label ≤ g.nodeCount)
    (hdarts : ∀ d ∈ g.darts v, 0 < g.residual flow d → d.other ≠ v → label ≤ labels[d.other] + 1) :
    g.ValidLabels flow (labels.put v label) source sink := by
  have hset : ∀ u : g.Node, (labels.put v label)[u] = if u = v then label else labels[u] := by
    intro u
    exact Vector.getElem_put labels v u label
  have hmono : ∀ u : g.Node, labels[u] ≤ (labels.put v label)[u] := by
    intro u
    rw [hset]
    split
    next heq => simpa only [heq] using hge
    next => exact le_rfl
  refine ⟨?_, ?_, fun u => ?_, fun u hu d hd hresidual => ?_⟩
  · rw [hset, if_neg hsink.symm, h.sink_eq]
  · rw [hset, if_neg hsource.symm, h.source_eq]
  · rw [hset]
    split
    · exact hle
    · exact h.le_nodeCount u
  · -- only the darts of the raised node can get steeper
    by_cases huv : u = v
    · subst huv
      rw [hset u, if_pos rfl]
      by_cases hloop : d.other = u
      · rw [hset, if_pos hloop]
        exact Nat.le_succ label
      · rw [hset, if_neg hloop]
        exact hdarts d hd hresidual hloop
    · rw [hset u, if_neg huv]
      exact (h.le_succ u hu d hd hresidual).trans (Nat.add_le_add_right (hmono d.other) 1)

/-- Retiring the nodes above an unused label is valid: no residual dart leads from
them to a node below it. -/
theorem retire (h : g.ValidLabels flow labels source sink) {gap : Nat}
    (hunused : ∀ v : g.Node, labels[v] ≠ gap) {labels' : Vector Nat g.nodeCount}
    (hlabels : ∀ v : g.Node, labels'[v] =
      if gap < labels[v] ∧ labels[v] < g.nodeCount then g.nodeCount else labels[v]) :
    g.ValidLabels flow labels' source sink :=
  ((h.validExcept ∅).retire hunused hlabels).validLabels

end ValidLabels

end Order

namespace ValidLabels

variable [AddCommGroup K] [LinearOrder K] [IsOrderedAddMonoid K] {g : FlowGraph K}
  {flow : g.Flow} {labels : Vector Nat g.nodeCount} {source sink : g.Node}

/-- Arcs that lead down across an unused label are saturated. -/
theorem carried_eq_capacity (h : g.ValidLabels flow labels source sink) (hfits : g.Fits flow)
    {level : Nat} (hunused : ∀ v : g.Node, labels[v] ≠ level) {i : Fin g.arcCount}
    (hne : g.upstream i ≠ source) (hup : g.upstream i ∈ g.above labels level)
    (hdown : g.downstream i ∉ g.above labels level) :
    g.carried flow i = g.arcs[i].capacity := by
  obtain ⟨d, hd, hother, hresidual⟩ := exists_dart_upstream i
  have hnot := h.not_residual_of_above hunused hne hup hd (hother ▸ hdown)
  rw [hresidual, sub_pos, not_lt] at hnot
  exact le_antisymm (hfits.carried_le i) hnot

/-- Arcs that lead up across an unused label are empty. -/
theorem carried_eq_zero (h : g.ValidLabels flow labels source sink) (hfits : g.Fits flow)
    {level : Nat} (hunused : ∀ v : g.Node, labels[v] ≠ level) {i : Fin g.arcCount}
    (hne : g.downstream i ≠ source) (hup : g.upstream i ∉ g.above labels level)
    (hdown : g.downstream i ∈ g.above labels level) :
    g.carried flow i = 0 := by
  obtain ⟨d, hd, hother, hresidual⟩ := exists_dart_downstream i
  have hnot := h.not_residual_of_above hunused hne hdown hd (hother ▸ hup)
  rw [hresidual, not_lt] at hnot
  exact le_antisymm hnot (hfits.carried_nonneg i)

/-- Sending along a dart that does not lead up keeps labels valid. -/
theorem push (h : g.ValidLabels flow labels source sink) {v : g.Node} {d : g.DartOf}
    (hd : d ∈ g.darts v) {a : K} (ha : 0 ≤ a) (hlabels : labels[d.other] ≤ labels[v] + 1) :
    g.ValidLabels (g.push flow d a) labels source sink := by
  refine ⟨h.sink_eq, h.source_eq, h.le_nodeCount, fun u hu e he hresidual => ?_⟩
  by_cases hopposite : e.arc = d.arc ∧ e.reversed ≠ d.reversed
  -- the same arc seen from its other end may have become residual
  · have hends := g.ends_of_opposite hd he hopposite.1 hopposite.2
    simpa only [hends.1, hends.2] using hlabels
  · exact h.le_succ u hu e he (hresidual.trans_le (residual_push_le flow ha hopposite))

end ValidLabels

end PushRelabel.FlowGraph
