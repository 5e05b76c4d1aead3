import PushRelabel.Discharger
import PushRelabel.Proofs.Pass.Fifo
import PushRelabel.Proofs.Pass.Rounds

/-! # What both engines achieve

Whatever the engine and its settings, a pass that ends well settles the preflow from
which it started. The engine that discharges in rounds must not have anything left to
settle from an earlier pass, and leaves nothing.
-/

namespace PushRelabel.Discharger

variable {K : Type} {g : FlowGraph K}

theorem preflow_resume (d : Discharger g) (p : Preflow g) (journal : Journal K) :
    (d.resume p journal).pass.toPreflow = p := by
  cases d <;> rfl

variable [Quantity K]

/-- Nothing was added to the excess of a node and not settled. -/
def Idle (d : Discharger g) : Prop :=
  match d with
  | fifo _ => True
  | rounds s => ∀ v : g.Node, s.added[v] = 0

theorem Idle.resume {d : Discharger g} (h : d.Idle) (p : Preflow g) (journal : Journal K) :
    (d.resume p journal).Idle := by
  cases d with
  | fifo s => trivial
  | rounds s => exact h

theorem preflow_start (settings : Settings) (p : Preflow g) (journal : Journal K) :
    (start settings p journal).pass.toPreflow = p := by
  unfold start
  dsimp only
  split <;> rfl

theorem idle_start (settings : Settings) (p : Preflow g) (journal : Journal K) :
    (start settings p journal).Idle := by
  unfold start
  dsimp only
  split
  · trivial
  · intro v
    simp [Rounds.start, Round.start]

/-- The states of a discharger in a pass, where no node is being discharged. -/
inductive Between (source sink : g.Node) : Discharger g → Discharger g → Prop
  | fifo {s t : Fifo g} {threshold : Nat} (h : Fifo.Between threshold source sink s t) :
      Between source sink (.fifo s) (.fifo t)
  | rounds {s t : Rounds g} (h : Rounds.Between source sink s t) :
      Between source sink (.rounds s) (.rounds t)

theorem run_fifo (threshold fuel : Nat) (source sink : g.Node) (s : Fifo g) :
    run threshold fuel source sink (fifo s) =
      embedded fifo (Fifo.run threshold fuel source sink s) := by
  dsimp only [run]
  cases Fifo.run threshold fuel source sink s <;> rfl

theorem run_rounds (threshold fuel : Nat) (source sink : g.Node) (s : Rounds g) :
    run threshold fuel source sink (rounds s) =
      embedded rounds (Rounds.run threshold fuel source sink s) := by
  dsimp only [run]
  cases Rounds.run threshold fuel source sink s <;> rfl

theorem run_eq_ok {d e : Discharger g} {threshold fuel : Nat} {source sink : g.Node} {u : Unit}
    (h : run threshold fuel source sink d = .ok u e) :
    (∃ s t, d = .fifo s ∧ e = .fifo t ∧ Fifo.run threshold fuel source sink s = .ok () t) ∨
      ∃ s t, d = .rounds s ∧ e = .rounds t ∧
        Rounds.run threshold fuel source sink s = .ok () t := by
  cases d with
  | fifo s =>
      rw [run_fifo, embedded_eq_ok_iff] at h
      obtain ⟨t, hrun, rfl⟩ := h
      exact Or.inl ⟨s, t, rfl, rfl, hrun⟩
  | rounds s =>
      rw [run_rounds, embedded_eq_ok_iff] at h
      obtain ⟨t, hrun, rfl⟩ := h
      exact Or.inr ⟨s, t, rfl, rfl, hrun⟩

theorem between_of_run {d e : Discharger g} {threshold fuel : Nat} {source sink : g.Node} {u : Unit}
    (h : run threshold fuel source sink d = .ok u e) : Between source sink d e := by
  rcases run_eq_ok h with ⟨s, t, rfl, rfl, hrun⟩ | ⟨s, t, rfl, rfl, hrun⟩
  · exact .fifo (Fifo.between_of_run hrun).1
  · exact .rounds (Rounds.between_of_run hrun).1

section Exact

variable {K : Type} [AddCommGroup K] [LinearOrder K] [IsOrderedAddMonoid K]
  {g : FlowGraph K} {d e : Discharger g} {giver source sink : g.Node}

theorem Between.balanced (h : Between source sink d e) (hproper : g.Proper) (hne : source ≠ sink)
    (hgiver : giver = source ∨ giver = sink) (hfits : g.Fits d.pass.flow)
    (hexcess : ∀ v : g.Node, v ≠ giver → 0 ≤ d.pass.excess[v]) (hidle : d.Idle) :
    d.pass.toPreflow.Balanced giver e.pass.toPreflow ∧ e.Idle := by
  cases h with
  | fifo h => exact ⟨(h.sound hproper hne hgiver hfits hexcess).balanced, trivial⟩
  | rounds h => exact ⟨h.balanced hne hfits hexcess hidle, (h.kept hne hidle).idle.added_eq⟩

theorem settled_of_run {threshold fuel : Nat} (hproper : g.Proper) (hne : source ≠ sink)
    (hgiver : giver = source ∨ giver = sink) (hfits : g.Fits d.pass.flow)
    (hexcess : ∀ v : g.Node, v ≠ giver → 0 ≤ d.pass.excess[v]) (hidle : d.Idle) {u : Unit}
    (h : run threshold fuel source sink d = .ok u e) :
    d.pass.toPreflow.Settled giver source sink e.pass.toPreflow ∧ e.Idle := by
  rcases run_eq_ok h with ⟨s, t, rfl, rfl, hrun⟩ | ⟨s, t, rfl, rfl, hrun⟩
  · exact ⟨Fifo.settled_of_run hproper hne hgiver hfits hexcess hrun, trivial⟩
  · exact Rounds.settled_of_run hne hfits hexcess hidle hrun

end Exact

end PushRelabel.Discharger
