import PushRelabel.Proofs.Pass.FifoGaps
import PushRelabel.Proofs.Solver

/-! # Strategies for gaps are interchangeable

Whichever strategy detects gaps, a sequential run makes the same discharges and leaves the same
labels, excess, flow and tally. What it reports differs in the name of the strategy only.
-/

namespace PushRelabel

variable {K : Type}

namespace Discharger

variable {g : FlowGraph K} {d e : Discharger g}

/-- Sequential dischargers that differ in their detectors only, each of which detects gaps. -/
inductive Alike : Discharger g → Discharger g → Prop
  | fifo {s t : Fifo g} (h : s.Alike t) : Alike (.fifo s) (.fifo t)

theorem Alike.preflow_eq (h : d.Alike e) : d.pass.toPreflow = e.pass.toPreflow := by
  obtain ⟨h⟩ := h
  exact (congrArg (fun r : Fifo g => r.toPreflow) h.bare_eq :)

theorem Alike.tally_eq (h : d.Alike e) : d.pass.tally = e.pass.tally := by
  obtain ⟨h⟩ := h
  exact (congrArg (fun r : Fifo g => r.tally) h.bare_eq :)

theorem Alike.journal_eq (h : d.Alike e) : d.pass.journal.anonymous = e.pass.journal.anonymous := by
  obtain ⟨h⟩ := h
  exact (congrArg (fun r : Fifo g => r.journal) h.bare_eq :)

theorem Alike.record (h : d.Alike e) (event : Event K) :
    (d.resume d.pass.toPreflow (d.pass.journal.record event)).Alike
      (e.resume e.pass.toPreflow (e.pass.journal.record event)) := by
  obtain ⟨h⟩ := h
  exact .fifo (h.record event)

variable [Quantity K]

theorem alike_start {a b : GapStrategy} (ha : a ≠ .none) (hb : b ≠ .none) (frequency : Float)
    (granularity : Granularity) {p q : Preflow g} (hpq : p = q) {j k : Journal K}
    (h : j.anonymous = k.anonymous) :
    Alike (start ⟨.sequential, a, frequency, granularity⟩ p j)
      (start ⟨.sequential, b, frequency, granularity⟩ q k) := by
  subst hpq
  refine .fifo ⟨?_, GapDetector.ofStrategy_ne_none ha, GapDetector.ofStrategy_ne_none hb⟩
  exact congrArg (fun journal : Journal K =>
    (Fifo.start .none (Pass.start (granularity.batch g.nodeCount g.arcCount) p journal))) h

theorem Alike.lockstep_run (h : d.Alike e) (threshold fuel : Nat) (source sink : g.Node) :
    Lockstep Alike Alike (run threshold fuel source sink d) (run threshold fuel source sink e) := by
  obtain @⟨s, t, h⟩ := h
  have hrun := h.lockstep_run threshold fuel source sink
  unfold run
  dsimp only
  generalize Fifo.run threshold fuel source sink s = p at hrun ⊢
  generalize Fifo.run threshold fuel source sink t = q at hrun ⊢
  cases hrun with
  | ok u hpq => exact .ok u (.fifo hpq)
  | error halt hpq => exact .error halt (.fifo hpq)

end Discharger

namespace TwoPass

variable {g : FlowGraph K} {s t : TwoPass g}

/-- Runs that differ at most in how they say that gaps are detected. -/
structure Alike (s t : TwoPass g) : Prop where
  preflow_eq : s.preflow = t.preflow
  tally_eq : s.tally = t.tally
  journal_eq : s.journal.anonymous = t.journal.anonymous

theorem alike_collect {d e : Discharger g} (hd : d.Alike e) :
    (s.collect d).Alike (t.collect e) :=
  ⟨hd.preflow_eq, hd.tally_eq, hd.journal_eq⟩

variable [Quantity K] {d e : Discharger g}

theorem alike_start (flow : g.Flow) {j k : Journal K} (h : j.anonymous = k.anonymous) :
    (start flow j).Alike (start flow k) :=
  ⟨rfl, rfl, h⟩

/-- What a pass records at its end depends on its preflow only. -/
theorem lockstep_pass (h : d.Alike e) (threshold fuel : Nat) (source sink : g.Node)
    (event : Preflow g → Event K) :
    Lockstep Discharger.Alike Discharger.Alike
      ((do Discharger.run threshold fuel source sink; record fun d => event d.pass.toPreflow :
        EStateM Halt (Discharger g) Unit) d)
      ((do Discharger.run threshold fuel source sink; record fun d => event d.pass.toPreflow :
        EStateM Halt (Discharger g) Unit) e) := by
  refine Lockstep.bind (h.lockstep_run threshold fuel _ _) fun _ p q hpq => .modify ?_
  have hevent : event p.pass.toPreflow = event q.pass.toPreflow := by rw [hpq.preflow_eq]
  dsimp only
  rw [hevent]
  exact hpq.record _

theorem lockstep_firstPass (h : d.Alike e) (threshold fuel : Nat) :
    Lockstep Discharger.Alike Discharger.Alike (firstPass threshold fuel d)
      (firstPass threshold fuel e) :=
  lockstep_pass h threshold fuel _ _ fun p => .preflowFinished p.excess[g.target]

theorem lockstep_secondPass (h : d.Alike e) (threshold fuel : Nat) :
    Lockstep Discharger.Alike Discharger.Alike (secondPass threshold fuel d)
      (secondPass threshold fuel e) :=
  lockstep_pass h threshold fuel _ _ fun p => .excessReturned (-p.excess[g.source])

theorem Alike.lockstep_run (h : s.Alike t) {a b : GapStrategy} (ha : a ≠ .none) (hb : b ≠ .none)
    (frequency : Float) (granularity : Granularity) (fuel : Nat) :
    Lockstep Alike Alike (run ⟨.sequential, a, frequency, granularity⟩ fuel s)
      (run ⟨.sequential, b, frequency, granularity⟩ fuel t) := by
  have hsaturated : s.saturate.Alike t.saturate :=
    ⟨congrArg Preflow.saturate h.preflow_eq, h.tally_eq, h.journal_eq⟩
  unfold run discharging
  dsimp only
  refine Lockstep.bind (.modify hsaturated) fun _ p q hpq => ?_
  have hstart := Discharger.alike_start ha hb frequency granularity hpq.preflow_eq hpq.journal_eq
  have hpasses := Lockstep.bind
    (lockstep_firstPass hstart (Pass.threshold g frequency) fuel)
    fun _ _ _ hde => lockstep_secondPass hde (Pass.threshold g frequency) fuel
  refine Lockstep.bind (.onPart hpasses (fun _ _ hde => alike_collect hde)
    fun _ _ hde => alike_collect hde) fun _ p q hpq => .modify ⟨hpq.preflow_eq, hpq.tally_eq, ?_⟩
  dsimp only
  rw [Journal.anonymous_record, Journal.anonymous_record, hpq.journal_eq, hpq.preflow_eq,
    hpq.tally_eq]

end TwoPass

namespace Solver

variable {a b : GapStrategy}

/-- A solver with the sequential engine and a strategy for gaps. -/
def detecting (s : Solver K) (strategy : GapStrategy) : Solver K :=
  { s with settings := { s.settings with engine := .sequential, gaps := strategy } }

/-- A solver that does not tell how gaps are detected. -/
def anonymous (s : Solver K) : Solver K :=
  { s with
    settings := { s.settings with gaps := .none }
    events := s.events.map .anonymous }

/-- Solvers that differ at most in how they detect gaps. -/
structure Alike (s t : Solver K) : Prop where
  anonymous_eq : s.anonymous = t.anonymous

theorem Alike.report {s t : Solver K} (h : s.Alike t) {j k : Journal K}
    (hjournal : j.anonymous = k.anonymous) : (s.report j).Alike (t.report k) := by
  constructor
  calc (s.report j).anonymous = s.anonymous.report j.anonymous := rfl
    _ = t.anonymous.report k.anonymous := by rw [h.anonymous_eq, hjournal]
    _ = (t.report k).anonymous := rfl

theorem Alike.finish {s t : Solver K} (h : s.Alike t) {g : FlowGraph K} {p q : TwoPass g}
    (hpq : p.Alike q) : (s.finish p).Alike (t.finish q) := by
  constructor
  calc (s.finish p).anonymous = s.anonymous.finish ⟨p.preflow, p.tally, p.journal.anonymous⟩ := rfl
    _ = t.anonymous.finish ⟨q.preflow, q.tally, q.journal.anonymous⟩ := by
      rw [h.anonymous_eq, hpq.preflow_eq, hpq.tally_eq, hpq.journal_eq]
    _ = (t.finish q).anonymous := rfl

theorem alike_detecting (s : Solver K) (a b : GapStrategy) :
    (s.detecting a).Alike (s.detecting b) :=
  ⟨rfl⟩

variable [Quantity K]

/-- The journal of a solver that runs, once the flow graph is built. -/
def journalOf (stopAt : Option Nat) (s : Solver K) (g : FlowGraph K) : Journal K :=
  (buildEvents g).foldl Journal.record (s.opening.foldl Journal.record (.start s.stopped stopAt))

/-- What a solver makes of the outcome of both passes. -/
def conclude {g : FlowGraph K} (s : Solver K) : EStateM.Result Halt (TwoPass g) Unit →
    EStateM.Result (SolveError K) (Solver K) (Solution K)
  | .ok _ passes => .ok (solution g passes.preflow.flow) (s.finish passes)
  | .error halt passes => .error (.halt halt) (s.finish passes)

theorem run_of_build {s : Solver K} {g : FlowGraph K} (hbuild : s.problem.build = .ok g)
    (fuel : Nat) (stopAt : Option Nat) :
    run fuel stopAt s =
      s.conclude (TwoPass.run s.settings fuel (.start g.initialFlow (s.journalOf stopAt g))) := by
  unfold run
  rw [hbuild]
  rfl

theorem run_of_error {s : Solver K} {e : InputError K} (hbuild : s.problem.build = .error e)
    (fuel : Nat) (stopAt : Option Nat) :
    run fuel stopAt s =
      .error (.input e) (s.report (s.opening.foldl Journal.record (.start s.stopped stopAt))) := by
  unfold run
  rw [hbuild]

theorem Alike.lockstep_conclude {s t : Solver K} (h : s.Alike t) {g : FlowGraph K}
    {p q : EStateM.Result Halt (TwoPass g) Unit} (hpq : Lockstep TwoPass.Alike TwoPass.Alike p q) :
    Lockstep Alike Alike (s.conclude p) (t.conclude q) := by
  cases hpq with
  | @ok _ p q hpq =>
      have hsolution : solution g p.preflow.flow = solution g q.preflow.flow := by
        rw [hpq.preflow_eq]
      unfold conclude
      dsimp only
      rw [hsolution]
      exact .ok (solution g q.preflow.flow) (h.finish hpq)
  | error halt hpq => exact .error (SolveError.halt halt) (h.finish hpq)

theorem lockstep_run (ha : a ≠ .none) (hb : b ≠ .none) (fuel : Nat) (stopAt : Option Nat)
    (s : Solver K) :
    Lockstep Alike Alike (run fuel stopAt (s.detecting a)) (run fuel stopAt (s.detecting b)) := by
  have halike := s.alike_detecting a b
  cases hbuild : s.problem.build with
  | error e =>
      have hopening : ((s.detecting a).opening.foldl Journal.record
          (.start s.stopped stopAt)).anonymous =
            ((s.detecting b).opening.foldl Journal.record (.start s.stopped stopAt)).anonymous := by
        simp only [Journal.anonymous_foldl_record]
        rfl
      rw [run_of_error (s := s.detecting a) hbuild, run_of_error (s := s.detecting b) hbuild]
      exact .error (SolveError.input e) (halike.report hopening)
  | ok g =>
      have hjournal : ((s.detecting a).journalOf stopAt g).anonymous =
          ((s.detecting b).journalOf stopAt g).anonymous := by
        simp only [journalOf, Journal.anonymous_foldl_record]
        rfl
      have hpasses := (TwoPass.alike_start g.initialFlow hjournal).lockstep_run ha hb
        s.settings.frequency s.settings.granularity fuel
      rw [run_of_build (s := s.detecting a) hbuild, run_of_build (s := s.detecting b) hbuild]
      exact halike.lockstep_conclude hpasses

/-- Strategies that detect gaps are interchangeable. Passes that only they tell apart make the
same discharges, each in the same preflow, and stay alike, so that the detectors of one pass do
not matter to the next one. The runs of a solver end in the same way, with the same result, and
leave the same labels, excess and tally. -/
theorem gaps_interchangeable (ha : a ≠ .none) (hb : b ≠ .none) :
    (∀ (g : FlowGraph K) (p : Pass g), (Fifo.start a p).Alike (.start b p)) ∧
      (∀ (g : FlowGraph K) (s t : Fifo g), s.Alike t → ∀ threshold fuel source sink,
        Fifo.discharges threshold fuel source sink s =
            Fifo.discharges threshold fuel source sink t ∧
          Lockstep Fifo.Alike Fifo.Alike (Fifo.run threshold fuel source sink s)
            (Fifo.run threshold fuel source sink t)) ∧
      ∀ (fuel : Nat) (stopAt : Option Nat) (s : Solver K),
        Lockstep Alike Alike (run fuel stopAt (s.detecting a)) (run fuel stopAt (s.detecting b)) :=
  ⟨fun _ p => Fifo.alike_start ha hb p,
    fun _ _ _ h threshold fuel source sink => ⟨h.discharges_eq threshold fuel source sink,
      h.lockstep_run threshold fuel source sink⟩,
    fun fuel stopAt s => s.lockstep_run ha hb fuel stopAt⟩

/-- Buckets and the sorted set find the same unit of flow. -/
theorem gaps_interchangeable_oversupplied :
    GapStrategy.buckets ≠ .none ∧ GapStrategy.sortedSet ≠ .none ∧ ∃ sol s t,
      run 100 none ((oversuppliedSolver .sequential).detecting .buckets) = .ok sol s ∧
      run 100 none ((oversuppliedSolver .sequential).detecting .sortedSet) = .ok sol t ∧
      sol.total = 1 ∧ s.Alike t := by
  obtain ⟨sol, s, hrun, htotal⟩ := total?_eq_some_iff.mp (total?_oversupplied .sequential)
  obtain ⟨-, -, hsolver⟩ := gaps_interchangeable (K := ℤ) (a := .buckets) (b := .sortedSet)
    nofun nofun
  have hlockstep := hsolver 100 none (oversuppliedSolver .sequential)
  change run 100 none ((oversuppliedSolver .sequential).detecting .buckets) = .ok sol s at hrun
  rw [hrun] at hlockstep
  generalize hother : run 100 none ((oversuppliedSolver .sequential).detecting .sortedSet) = r
    at hlockstep
  cases hlockstep with
  | ok _ halike => exact ⟨nofun, nofun, sol, s, _, hrun, rfl, htotal, halike⟩

end Solver

end PushRelabel
