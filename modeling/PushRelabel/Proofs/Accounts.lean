import PushRelabel.Proofs.FlowGraph.Meaning
import PushRelabel.Proofs.TwoPass

/-! # Excess is accounted for

At any time at which no node is being discharged, the excess of a node is what it has taken
in since the run began. Nothing is lost or made up, so all excesses add up to zero, and only
the super-source owes any.
-/

namespace PushRelabel.TwoPass

open Discharger

section Visits

variable {K : Type} [Quantity K] {g : FlowGraph K}

/-- The preflows at which a run arrives from the end of its first step on: after the arcs of
the super-source were saturated, and in both passes between two discharges or between two
rounds. The second pass may follow at any time. -/
inductive Visits (settings : Settings) (s : TwoPass g) : Preflow g → Prop
  | saturated : Visits settings s s.preflow.saturate
  | firstPass {d : Discharger g}
      (hfirst : Between g.source g.target (.start settings s.preflow.saturate s.journal) d) :
      Visits settings s d.pass.toPreflow
  | secondPass {d e : Discharger g} (journal : Journal K)
      (hfirst : Between g.source g.target (.start settings s.preflow.saturate s.journal) d)
      (hsecond : Between g.target g.source (d.resume d.pass.toPreflow journal) e) :
      Visits settings s e.pass.toPreflow

/-- A run arrives at the preflow that it returns. -/
theorem visits_of_run {settings : Settings} {s t : TwoPass g} {fuel : Nat} {u : Unit}
    (h : run settings fuel s = .ok u t) : Visits settings s t.preflow := by
  obtain ⟨_, _, hfirst, hsecond, heq⟩ := passes_of_run h
  obtain ⟨d, _, hrun, rfl⟩ := pass_eq_ok hfirst
  obtain ⟨e, _, hrun', rfl⟩ := pass_eq_ok hsecond
  rw [heq, preflow_resume]
  exact .secondPass _ (between_of_run hrun) (between_of_run hrun')

end Visits

variable {K : Type} [AddCommGroup K] [LinearOrder K] [IsOrderedAddMonoid K] {p : Problem K}
  {g : FlowGraph K} {settings : Settings} {s : TwoPass g} {q : Preflow g}

theorem Visits.balanced (h : Visits settings s q) (hproper : g.Proper)
    (hfits : g.Fits s.preflow.flow) : s.preflow.cleared.Balanced g.source q := by
  have hsaturated := (Preflow.saturating_saturate hfits).balanced
  have hstart := preflow_start settings s.preflow.saturate s.journal
  have hfirst : ∀ {d : Discharger g},
      Between g.source g.target (.start settings s.preflow.saturate s.journal) d →
      s.preflow.cleared.Balanced g.source d.pass.toPreflow ∧ d.Idle := by
    intro d hbetween
    obtain ⟨hbalanced, hidle⟩ := hbetween.balanced hproper g.source_ne_target (Or.inl rfl)
      (by rw [hstart]; exact hsaturated.fits) (by rw [hstart]; exact hsaturated.excess_nonneg)
      (idle_start _ _ _)
    rw [hstart] at hbalanced
    exact ⟨hsaturated.trans hbalanced, hidle⟩
  cases h with
  | saturated => exact hsaturated
  | firstPass hbetween => exact (hfirst hbetween).1
  | @secondPass d e journal hbetween hsecond =>
      obtain ⟨hbalanced, hidle⟩ := hfirst hbetween
      have hresume := preflow_resume d d.pass.toPreflow journal
      obtain ⟨hrest, -⟩ := hsecond.balanced hproper g.source_ne_target.symm (Or.inr rfl)
        (by rw [hresume]; exact hbalanced.fits) (by rw [hresume]; exact hbalanced.excess_nonneg)
        (hidle.resume _ _)
      rw [hresume] at hrest
      exact hbalanced.trans hrest

/-- Rounds in batches of two nodes. -/
def pairwise : Settings := ⟨.parallel, .counts, 0.5, .nodes 2⟩

/-- A run over a flow graph that was just built. -/
def initial (g : FlowGraph ℤ) : TwoPass g := .start g.initialFlow (.start false none)

/-- What a run returns is accounted for in the same way, also if it began with a flow that fits
but is not conserved. -/
theorem accounts_of_run {t : TwoPass g} {fuel : Nat} {u : Unit} (hbuild : p.build = .ok g)
    (hfits : g.Fits s.preflow.flow) (h : run settings fuel s = .ok u t) :
    g.Fits t.preflow.flow ∧ (∀ v : g.Node, v ≠ g.source → 0 ≤ t.preflow.excess[v]) ∧
      (∀ v : g.Node,
        t.preflow.excess[v] = g.netInflow t.preflow.flow v - g.netInflow s.preflow.flow v) ∧
      ∑ v : g.Node, t.preflow.excess[v] = 0 := by
  have hbalanced := (visits_of_run h).balanced (Problem.proper_of_build hbuild) hfits
  exact ⟨hbalanced.fits, hbalanced.excess_nonneg, hbalanced.excess_eq,
    hbalanced.sum_excess_eq_zero⟩

end PushRelabel.TwoPass
