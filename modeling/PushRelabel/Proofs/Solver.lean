import PushRelabel.Solver
import PushRelabel.Proofs.FlowGraph.Meaning
import PushRelabel.Proofs.TwoPass

/-! # What a solver finds

Whatever its engine and settings, a solver that ends well has found a maximum flow: as
much is delivered as the smallest cut lets through, what is reported is a feasible flow
of the network, and no excess is left between the super-terminals.
-/

namespace PushRelabel

variable {K : Type} [AddCommGroup K] [LinearOrder K] [IsOrderedAddMonoid K]

theorem Preflow.Maximal.isLeast {g : FlowGraph K} {q : Preflow g} {base : g.Flow}
    (h : q.Maximal base) (hproper : g.Proper) :
    IsLeast g.cutCapacities (g.delivered q.flow) := by
  obtain ⟨X, hsource, htarget, hcut⟩ := h.saturated
  refine ⟨⟨X, hsource, htarget, hcut.symm⟩, ?_⟩
  rintro b ⟨Y, hsource, htarget, rfl⟩
  exact h.isFlow.delivered_le hproper hsource htarget

/-- A total that the smallest cut of the built graph allows, and that no flow exceeds. -/
structure Problem.Optimum (p : Problem K) (g : FlowGraph K) (total : K) : Prop where
  build : p.build = .ok g
  isLeast : IsLeast g.cutCapacities total
  delivered_le : ∀ flow, g.IsFlow flow → g.delivered flow ≤ total
  value_le : ∀ f, p.Feasible f → p.value f ≤ total

namespace Solver

variable {s t : Solver K} {sol : Solution K} {fuel : Nat} {stopAt : Option Nat}

omit [IsOrderedAddMonoid K] in
theorem run_eq_ok (h : run fuel stopAt s = .ok sol t) :
    ∃ (g : FlowGraph K) (journal : Journal K) (passes : TwoPass g),
      s.problem.build = .ok g ∧
      TwoPass.run s.settings fuel (.start g.initialFlow journal) = .ok () passes ∧
      sol = solution g passes.preflow.flow ∧ t = s.finish passes := by
  unfold run at h
  dsimp only at h
  split at h
  next => cases h
  next g hbuild =>
    split at h
    next passes hrun =>
      cases h
      exact ⟨g, _, passes, hbuild, hrun, rfl, rfl⟩
    next => cases h

/-- A run that ends well leaves a maximum flow of the graph that was built. -/
theorem maximal_of_run (h : run fuel stopAt s = .ok sol t) :
    ∃ (g : FlowGraph K) (q : Preflow g), s.problem.build = .ok g ∧
      q.Maximal g.initialFlow ∧ sol = solution g q.flow ∧ t.excess = q.excess.toArray := by
  obtain ⟨g, journal, passes, hbuild, hrun, hsol, ht⟩ := run_eq_ok h
  have hproper := Problem.proper_of_build hbuild
  have hmaximal := TwoPass.maximal_of_run hproper (FlowGraph.isFlow_initialFlow hproper) hrun
  exact ⟨g, passes.preflow, hbuild, hmaximal, hsol, congrArg Solver.excess ht⟩

theorem optimum_of_run (h : run fuel stopAt s = .ok sol t) :
    ∃ g, s.problem.Optimum g sol.total := by
  obtain ⟨g, q, hbuild, hmaximal, rfl, -⟩ := maximal_of_run h
  have hproper := Problem.proper_of_build hbuild
  have hleast : IsLeast g.cutCapacities (g.delivered q.flow) := hmaximal.isLeast hproper
  have hmost : ∀ flow, g.IsFlow flow → g.delivered flow ≤ g.delivered q.flow := by
    intro flow hflow
    obtain ⟨X, hsource, htarget, hcut⟩ := hleast.1
    rw [← hcut]
    exact hflow.delivered_le hproper hsource htarget
  refine ⟨g, hbuild, hleast, hmost, fun f hf => ?_⟩
  obtain ⟨flow, hflow, -, hvalue⟩ := Problem.exists_isFlow_reporting hbuild hf
  rw [← hvalue]
  exact hmost flow hflow

/-- A source that can send out more than its arc to the target carries, and has a loop. -/
def oversupplied : Problem ℤ where
  network := ⟨2, #[#[(0, 5), (1, 1)], #[]], by decide⟩
  limits := #v[none, none]
  sources := .map [(0, 3)]
  targets := .list [1]

def oversuppliedSolver (engine : Engine) : Solver ℤ :=
  { ofProblem oversupplied with settings := ⟨engine, .buckets, 0.5, .default⟩ }

/-- The total that a run finds, if it ends well. -/
def total? (fuel : Nat) (stopAt : Option Nat) (s : Solver K) : Option K :=
  match run fuel stopAt s with
  | .ok sol _ => some sol.total
  | .error _ _ => none

omit [IsOrderedAddMonoid K] in
theorem total?_eq_some_iff {total : K} : total? fuel stopAt s = some total ↔
    ∃ sol t, run fuel stopAt s = .ok sol t ∧ sol.total = total := by
  unfold total?
  split
  next sol t hrun => simp [hrun]
  next e t hrun => simp [hrun]

set_option maxRecDepth 10000 in
theorem total?_oversupplied (engine : Engine) :
    total? 100 none (oversuppliedSolver engine) = some 1 := by
  cases engine with
  | sequential => decide +kernel
  | parallel => decide +kernel

section Engines

variable {gaps : GapStrategy} {frequency : Float} {granularity : Granularity}

/-- The engine that discharges one node after the other finds the optimum. -/
theorem optimum_sequential
    (h : run fuel stopAt { s with settings := ⟨.sequential, gaps, frequency, granularity⟩ } =
      .ok sol t) : ∃ g, s.problem.Optimum g sol.total := by
  have hoptimum := optimum_of_run h
  exact hoptimum

theorem optimum_sequential_oversupplied : ∃ sol t,
    run 100 none (oversuppliedSolver .sequential) = .ok sol t ∧ sol.total = 1 ∧
      ∃ g, oversupplied.Optimum g sol.total := by
  obtain ⟨sol, t, hrun, htotal⟩ := total?_eq_some_iff.mp (total?_oversupplied .sequential)
  have hoptimum := optimum_sequential (s := oversuppliedSolver .sequential) hrun
  exact ⟨sol, t, hrun, htotal, hoptimum⟩

/-- The engine that discharges in rounds finds the optimum, although its labels may be
too high between the points at which they are recomputed. -/
theorem optimum_parallel
    (h : run fuel stopAt { s with settings := ⟨.parallel, gaps, frequency, granularity⟩ } =
      .ok sol t) : ∃ g, s.problem.Optimum g sol.total := by
  have hoptimum := optimum_of_run h
  exact hoptimum

theorem optimum_parallel_oversupplied : ∃ sol t,
    run 100 none (oversuppliedSolver .parallel) = .ok sol t ∧ sol.total = 1 ∧
      ∃ g, oversupplied.Optimum g sol.total := by
  obtain ⟨sol, t, hrun, htotal⟩ := total?_eq_some_iff.mp (total?_oversupplied .parallel)
  have hoptimum := optimum_parallel (s := oversuppliedSolver .parallel) hrun
  exact ⟨sol, t, hrun, htotal, hoptimum⟩

end Engines

end Solver

end PushRelabel
