import PushRelabel.Proofs.Preflow

/-! # A potential of preflows

Raising a label lowers the room above the labels. While labels stay the same, sending down
one label opens no other dart that leads one label down, and either closes one or moves all
excess of a node down by one label. So each of these lowers the potential, in which the room
counts more than the open darts, and these count more than the labels of the nodes that have
excess. Capacities need not be integers for this.
-/

namespace PushRelabel.Preflow

variable {K : Type}

section Parts

variable [Quantity K] {g : FlowGraph K}

/-- How far labels are below the sentinel, taken together. -/
def room (p : Preflow g) : Nat := ∑ v : g.Node, (g.nodeCount - p.labels[v])

/-- The residual darts that lead one label down, each with its node. -/
def slopes (p : Preflow g) : Finset (Σ _ : g.Node, g.DartOf) :=
  Finset.univ.sigma fun v => (g.darts v).toFinset.filter fun d =>
    0 < g.residual p.flow d ∧ p.labels[v] = p.labels[d.other] + 1

/-- The labels of the nodes that have excess, taken together. -/
def load (p : Preflow g) : Nat := ∑ v : g.Node, if 0 < p.excess[v] then p.labels[v] else 0

def potential (p : Preflow g) : ℕ ×ₗ ℕ ×ₗ ℕ := toLex (p.room, toLex (p.slopes.card, p.load))

theorem mem_slopes {p : Preflow g} {v : g.Node} {d : g.DartOf} :
    ⟨v, d⟩ ∈ p.slopes ↔ d ∈ g.darts v ∧ 0 < g.residual p.flow d ∧
      p.labels[v] = p.labels[d.other] + 1 := by
  simp [slopes]

/-- Labels that nowhere fall and somewhere rise lower the potential, whatever flows. -/
theorem potential_lt_of_labels {p q : Preflow g} (hle : ∀ v : g.Node, p.labels[v] ≤ q.labels[v])
    (hbound : ∀ v : g.Node, q.labels[v] ≤ g.nodeCount) {v : g.Node}
    (hlt : p.labels[v] < q.labels[v]) : q.potential < p.potential := by
  refine Prod.Lex.toLex_lt_toLex.mpr (Or.inl ?_)
  refine Finset.sum_lt_sum (fun u _ => Nat.sub_le_sub_left (hle u) _) ⟨v, Finset.mem_univ v, ?_⟩
  exact Nat.sub_lt_sub_left (hlt.trans_le (hbound v)) hlt

theorem potential_le_of_labels {p q : Preflow g} (hflow : q.flow = p.flow)
    (hexcess : q.excess = p.excess) (hle : ∀ v : g.Node, p.labels[v] ≤ q.labels[v])
    (hbound : ∀ v : g.Node, q.labels[v] ≤ g.nodeCount) : q.potential ≤ p.potential := by
  by_cases hsame : ∃ v : g.Node, p.labels[v] < q.labels[v]
  · obtain ⟨v, hlt⟩ := hsame
    exact (potential_lt_of_labels hle hbound hlt).le
  · have hlabels : q.labels = p.labels := Vector.ext_fin fun v =>
      le_antisymm (not_lt.mp fun hlt => hsame ⟨v, hlt⟩) (hle v)
    have hpq : q = p := by
      rcases p with ⟨flow, excess, labels⟩
      rcases q with ⟨flow', excess', labels'⟩
      simp_all
    exact hpq ▸ le_rfl

end Parts

variable [AddCommGroup K] [LinearOrder K] [IsOrderedAddMonoid K] {g : FlowGraph K}
  {p : Preflow g} {v : g.Node} {d : g.DartOf}

theorem slopes_send_subset (hd : d ∈ g.darts v) (hlabel : p.labels[v] = p.labels[d.other] + 1)
    {a : K} (ha : 0 ≤ a) : (p.send v d a).slopes ⊆ p.slopes := by
  rintro ⟨u, e⟩ he
  obtain ⟨hmem, hresidual, hdown⟩ := mem_slopes.mp he
  rw [flow_send] at hresidual
  rw [labels_send] at hdown
  refine mem_slopes.mpr ⟨hmem, hresidual.trans_le ?_, hdown⟩
  refine FlowGraph.residual_push_le p.flow ha fun hopposite => ?_
  -- the opposite of the dart leads up
  obtain ⟨rfl, hother⟩ := g.ends_of_opposite hd hmem hopposite.1 hopposite.2
  simp only [hother] at hdown
  omega

omit [IsOrderedAddMonoid K] in
theorem load_send_lt (hne : d.other ≠ v) (hlabel : p.labels[v] = p.labels[d.other] + 1)
    (hexcess : 0 < p.excess[v]) : (p.send v d p.excess[v]).load < p.load := by
  -- the giver takes its label out of the load, and the receiver adds at most its own
  have hterm : ∀ u : g.Node,
      (if 0 < (p.send v d p.excess[v]).excess[u] then p.labels[u] else 0) +
          (if u = v then p.labels[v] else 0) ≤
        (if 0 < p.excess[u] then p.labels[u] else 0) +
          if u = d.other then p.labels[d.other] else 0 := by
    intro u
    rw [excess_send]
    by_cases hv : u = v
    · subst hv
      rw [if_neg hne.symm, if_pos rfl, if_neg hne.symm, if_pos rfl, add_zero, sub_self,
        if_neg (lt_irrefl _), if_pos hexcess, add_zero, zero_add]
    · rw [if_neg hv, if_neg hv, sub_zero, add_zero]
      by_cases hother : u = d.other
      · subst hother
        rw [if_pos rfl, if_pos rfl]
        split <;> omega
      · rw [if_neg hother, if_neg hother, add_zero, add_zero]
  have hsum := Finset.sum_le_sum fun u (_ : u ∈ Finset.univ) => hterm u
  rw [Finset.sum_add_distrib, Finset.sum_add_distrib, Finset.sum_ite_eq' Finset.univ v,
    Finset.sum_ite_eq' Finset.univ d.other, if_pos (Finset.mem_univ _),
    if_pos (Finset.mem_univ _)] at hsum
  simp only [load, labels_send]
  omega

/-- Sending as much as possible down one label lowers the potential. -/
theorem potential_send_lt (hproper : g.Proper) (hd : d ∈ g.darts v)
    (hlabel : p.labels[v] = p.labels[d.other] + 1) (hexcess : 0 < p.excess[v])
    (hresidual : 0 < g.residual p.flow d) :
    (p.send v d (min p.excess[v] (g.residual p.flow d))).potential < p.potential := by
  have hsubset := slopes_send_subset hd hlabel (le_min hexcess.le hresidual.le)
  refine Prod.Lex.toLex_lt_toLex.mpr (Or.inr ⟨rfl, Prod.Lex.toLex_lt_toLex.mpr ?_⟩)
  rcases le_or_gt (g.residual p.flow d) p.excess[v] with hle | hlt
  -- the dart is saturated
  · refine Or.inl (Finset.card_lt_card ⟨hsubset, fun hsuperset => ?_⟩)
    have hmem : (⟨v, d⟩ : Σ _ : g.Node, g.DartOf) ∈ p.slopes :=
      mem_slopes.mpr ⟨hd, hresidual, hlabel⟩
    obtain ⟨-, hafter, -⟩ := mem_slopes.mp (hsuperset hmem)
    rw [flow_send, min_eq_right hle, FlowGraph.residual_push, if_pos rfl, if_pos rfl,
      add_neg_cancel] at hafter
    exact lt_irrefl _ hafter
  -- the excess is gone
  · have hload := load_send_lt (hproper.other_ne hd) hlabel hexcess
    rw [min_eq_left hlt.le] at hsubset ⊢
    rcases (Finset.card_le_card hsubset).lt_or_eq with hcard | hcard
    · exact Or.inl hcard
    · exact Or.inr ⟨hcard, hload⟩

end PushRelabel.Preflow
