import PushRelabel.Proofs.Flow.Labels

/-! # Residual paths

A path of residual darts that does not go through the source keeps above an unused label
once it is there. The sink is below, so a node with the sentinel label cannot reach it.
Where some darts are excused, this holds of the paths around them. Conversely, if a residual
dart leads one label down from each node, then no valid labels are higher, so valid labels of
this kind are the exact distances.
-/

namespace PushRelabel.FlowGraph

variable {K : Type} [Quantity K] {g : FlowGraph K} {flow : g.Flow} {source sink u v : g.Node}

/-- A node other than the source can send something to another node. -/
def Leads (g : FlowGraph K) (flow : g.Flow) (source u v : g.Node) : Prop :=
  u ≠ source ∧ ∃ d ∈ g.darts u, 0 < g.residual flow d ∧ d.other = v

instance (g : FlowGraph K) (flow : g.Flow) (source u v : g.Node) :
    Decidable (g.Leads flow source u v) :=
  inferInstanceAs (Decidable (_ ≠ _ ∧ ∃ d ∈ g.darts u, _))

/-- A path of residual darts leads from a node to another one and never leaves the source,
so it avoids the source unless it ends there. -/
def Reaches (g : FlowGraph K) (flow : g.Flow) (source : g.Node) : g.Node → g.Node → Prop :=
  Relation.ReflTransGen (g.Leads flow source)

/-- A node other than the source can send something to another node along a dart that is not
excused. -/
def LeadsAround (g : FlowGraph K) (excused : Set g.DartOf) (flow : g.Flow)
    (source u v : g.Node) : Prop :=
  u ≠ source ∧ ∃ d ∈ g.darts u, d ∉ excused ∧ 0 < g.residual flow d ∧ d.other = v

/-- A path of residual darts, none of them excused, leads from a node to another one and never
leaves the source. -/
def ReachesAround (g : FlowGraph K) (excused : Set g.DartOf) (flow : g.Flow) (source : g.Node) :
    g.Node → g.Node → Prop :=
  Relation.ReflTransGen (g.LeadsAround excused flow source)

/-- Where no dart is excused, all paths count. -/
theorem Reaches.around (h : g.Reaches flow source u v) : g.ReachesAround ∅ flow source u v := by
  apply Relation.ReflTransGen.mono _ _ _ h
  rintro u v ⟨hne, d, hd, hresidual, hother⟩
  exact ⟨hne, d, hd, Set.notMem_empty d, hresidual, hother⟩

namespace ValidExcept

variable {labels : Vector Nat g.nodeCount} {excused : Set g.DartOf}

theorem mem_above_of_reachesAround (h : g.ValidExcept excused flow labels source sink)
    {level : Nat} (hunused : ∀ w : g.Node, labels[w] ≠ level) (hu : u ∈ g.above labels level)
    (hreaches : g.ReachesAround excused flow source u v) : v ∈ g.above labels level := by
  induction hreaches with
  | refl => exact hu
  | tail _ hleads ih =>
      obtain ⟨hne, d, hd, hexcused, hresidual, rfl⟩ := hleads
      by_contra hother
      exact h.not_residual_of_above hunused hne ih hd hexcused hother hresidual

/-- Nodes with the sentinel label are cut off from the sink, except through excused darts. -/
theorem not_reachesAround (h : g.ValidExcept excused flow labels source sink)
    (hv : labels[v] = g.nodeCount) : ¬ g.ReachesAround excused flow source v sink := by
  intro hreaches
  obtain ⟨level, hlt, hunused⟩ := h.exists_unused
  have habove : v ∈ g.above labels level := by
    rw [mem_above, hv]
    exact hlt
  exact h.sink_notMem_above level (h.mem_above_of_reachesAround hunused habove hreaches)

end ValidExcept

/-- Nodes with the sentinel label are cut off from the sink. -/
theorem ValidLabels.not_reaches {labels : Vector Nat g.nodeCount}
    (h : g.ValidLabels flow labels source sink) (hv : labels[v] = g.nodeCount) :
    ¬ g.Reaches flow source v sink :=
  fun hreaches => (h.validExcept ∅).not_reachesAround hv hreaches.around

/-! ## Exact labels -/

/-- Below a level, each node other than the sink can send to a node one label further down. -/
def Descends (g : FlowGraph K) (flow : g.Flow) (labels : Vector Nat g.nodeCount) (sink : g.Node)
    (level : Nat) : Prop :=
  ∀ v : g.Node, v ≠ sink → labels[v] < level →
    ∃ d ∈ g.darts v, 0 < g.residual flow d ∧ labels[d.other] + 1 = labels[v]

theorem Descends.mono {labels : Vector Nat g.nodeCount} {level level' : Nat}
    (h : g.Descends flow labels sink level) (hle : level' ≤ level) :
    g.Descends flow labels sink level' :=
  fun v hv hlt => h v hv (hlt.trans_le hle)

/-- Valid labels are nowhere higher than labels that descend. -/
theorem ValidLabels.le_of_descends {labels lower : Vector Nat g.nodeCount} {level : Nat}
    (h : g.ValidLabels flow labels source sink) (hlower : g.Descends flow lower sink level)
    (hsource : level ≤ lower[source]) {v : g.Node} (hv : lower[v] < level) :
    labels[v] ≤ lower[v] := by
  induction hlabel : lower[v] using Nat.strong_induction_on generalizing v with
  | _ label ih =>
      by_cases hsink : v = sink
      · simp only [hsink, h.sink_eq]
        exact Nat.zero_le _
      · obtain ⟨d, hd, hresidual, hother⟩ := hlower v hsink hv
        have hne : v ≠ source := by
          rintro rfl
          exact hv.not_ge hsource
        have hdown := ih lower[d.other] (by omega) (by omega) rfl
        have hstep := h.le_succ v hne d hd hresidual
        omega

/-- Valid labels from which a residual dart leads one label down, unless they are the sentinel. -/
structure ExactLabels (g : FlowGraph K) (flow : g.Flow) (labels : Vector Nat g.nodeCount)
    (source sink : g.Node) : Prop extends g.ValidLabels flow labels source sink where
  descends : g.Descends flow labels sink g.nodeCount

/-- Exact labels are the highest ones that are valid. -/
theorem ExactLabels.label_le {labels exact : Vector Nat g.nodeCount}
    (h : g.ExactLabels flow exact source sink) (hvalid : g.ValidLabels flow labels source sink)
    (v : g.Node) : labels[v] ≤ exact[v] := by
  rcases (h.le_nodeCount v).lt_or_eq with hlt | heq
  · exact hvalid.le_of_descends h.descends h.source_eq.ge hlt
  · rw [heq]
    exact hvalid.le_nodeCount v

end PushRelabel.FlowGraph
