import PushRelabel.Proofs.Accounts
import PushRelabel.Proofs.Pass.FifoEnds
import PushRelabel.Proofs.Pass.RoundsEnd

/-! # Runs end

As long as the stop flag stays down, both passes of a run come to an end: with enough fuel a
run ends, and more fuel does not change how. A first-in, first-out pass ends over any exact
amounts, because no infinite sequence of discharges lowers its potential. A pass in rounds ends
over the integers, because only so much can be delivered.
-/

namespace PushRelabel

open WorkingSet (Overflows)

namespace Discharger

section Ready

variable {K : Type} {g : FlowGraph K} {d e : Discharger g} {batch threshold : Nat}
  {source sink : g.Node} {excused : Halt → Prop}

def engine : Discharger g → Engine
  | fifo _ => .sequential
  | rounds _ => .parallel

/-- The discharger can begin a pass at any time. -/
def Ready (excused : Halt → Prop) (batch : Nat) : Discharger g → Prop
  | fifo s => s.toPass.Ready excused batch
  | rounds s => s.Ready excused batch

theorem engine_resume (d : Discharger g) (p : Preflow g) (journal : Journal K) :
    (d.resume p journal).engine = d.engine := by
  cases d <;> rfl

theorem Ready.record (h : d.Ready excused batch) (event : Event K) :
    (d.resume d.pass.toPreflow (d.pass.journal.record event)).Ready excused batch := by
  cases d with
  | fifo s => exact Pass.Ready.record h event
  | rounds s => exact Rounds.Ready.record h event

variable [Quantity K]

theorem engine_start (settings : Settings) (p : Preflow g) (journal : Journal K) :
    (start settings p journal).engine = settings.engine := by
  unfold start
  cases settings.engine <;> rfl

theorem ready_start (settings : Settings) (p : Preflow g) {journal : Journal K}
    (hoverflow : ∀ h, Overflows g.nodeCount
      (settings.granularity.batch g.nodeCount g.arcCount) h → excused h)
    (h : journal.Bears excused) : (start settings p journal).Ready excused
      (settings.granularity.batch g.nodeCount g.arcCount) := by
  have hbatch := settings.granularity.one_le_batch g.nodeCount g.arcCount
  have hpass := Pass.ready_start hbatch p hoverflow h
  unfold start
  dsimp only
  split
  · exact hpass.congr rfl rfl
  · exact Rounds.ready_start _ _ hpass

theorem Between.engine_eq (h : Between source sink d e) : e.engine = d.engine := by
  cases h <;> rfl

theorem ready_of_run (h : d.Ready excused batch) (hidle : d.Idle) (hne : source ≠ sink) {fuel : Nat}
    {u : Unit} (hrun : run threshold fuel source sink d = .ok u e) : e.Ready excused batch := by
  rcases run_eq_ok hrun with ⟨s, t, rfl, rfl, hresult⟩ | ⟨s, t, rfl, rfl, hresult⟩
  · exact Fifo.ready_of_run h hne hresult
  · exact Rounds.ready_of_run h hne hidle hresult

theorem ends_run_fifo {s : Fifo g}
    (h : Ends excused (fun fuel => Fifo.run threshold fuel source sink) s) :
    Ends excused (fun fuel => run threshold fuel source sink) (.fifo s) :=
  h.embed fun fuel => run_fifo threshold fuel source sink s

theorem ends_run_rounds {s : Rounds g}
    (h : Ends excused (fun fuel => Rounds.run threshold fuel source sink) s) :
    Ends excused (fun fuel => run threshold fuel source sink) (.rounds s) :=
  h.embed fun fuel => run_rounds threshold fuel source sink s

end Ready

/-- Between its terminals, every pass of a discharger with a certain engine ends. -/
def PassesEnd {K : Type} [AddCommGroup K] [LinearOrder K] (g : FlowGraph K) (engine : Engine)
    (batch threshold : Nat) : Prop :=
  ∀ (excused : Halt → Prop) (d : Discharger g) (source sink : g.Node), d.engine = engine →
    source ≠ sink → g.source = source ∨ g.source = sink → g.Fits d.pass.flow →
    (∀ v : g.Node, v ≠ g.source → 0 ≤ d.pass.excess[v]) → d.Idle → d.Ready excused batch →
    Ends excused (fun fuel => run threshold fuel source sink) d

section Exact

variable {K : Type} [AddCommGroup K] [LinearOrder K] [IsOrderedAddMonoid K] {g : FlowGraph K}

theorem passesEnd_sequential (hproper : g.Proper) {batch : Nat} (hbatch : 1 ≤ batch)
    (threshold : Nat) : PassesEnd g .sequential batch threshold := by
  intro excused d source sink hengine hne hgiver hfits hexcess _ hready
  cases d with
  | fifo s => exact ends_run_fifo (Fifo.ends_run hproper hne hgiver hfits hexcess hready hbatch)
  | rounds s => cases hengine

end Exact

theorem passesEnd_parallel {g : FlowGraph ℤ} (hproper : g.Proper) {batch : Nat}
    (hbatch : 1 ≤ batch) (threshold : Nat) : PassesEnd g .parallel batch threshold := by
  intro excused d source sink hengine hne hgiver hfits hexcess hidle hready
  cases d with
  | fifo s => cases hengine
  | rounds s =>
      exact ends_run_rounds
        (Rounds.ends_run hproper hne hgiver hfits hexcess hidle hready hbatch)

end Discharger

namespace TwoPass

open Discharger

variable {K : Type} [AddCommGroup K] [LinearOrder K] [IsOrderedAddMonoid K] {p : Problem K}
  {g : FlowGraph K} {settings : Settings} {s : TwoPass g}

/-- The second pass begins where the first one has ended. -/
theorem ends_bothPasses {d : Discharger g} {batch threshold : Nat} (hproper : g.Proper)
    (hpasses : PassesEnd g d.engine batch threshold) (hfits : g.Fits d.pass.flow)
    (hexcess : ∀ v : g.Node, v ≠ g.source → 0 ≤ d.pass.excess[v]) (hidle : d.Idle)
    {excused : Halt → Prop} (hready : d.Ready excused batch) :
    Ends excused
      (fun fuel => do firstPass threshold fuel; secondPass threshold fuel) d := by
  have hfirst := hpasses excused d _ _ rfl g.source_ne_target (Or.inl rfl) hfits hexcess hidle
    hready
  refine Ends.bind (hfirst.bind fun _ _ _ _ => (haltsOnly_modify _).ends) fun fuel _ e he => ?_
  obtain ⟨hsettled, hidle'⟩ := firstPass_eq_ok hproper hfits hexcess hidle he
  obtain ⟨_, r, hrun, hrecord⟩ := bind_eq_ok_iff.mp he
  obtain rfl := modify_eq_ok_iff.mp hrecord
  have hready' := (ready_of_run hready hidle g.source_ne_target hrun).record
    (.preflowFinished r.pass.excess[g.target])
  have hsecond := hpasses excused _ _ _
    ((engine_resume r _ _).trans (between_of_run hrun).engine_eq)
    g.source_ne_target.symm (Or.inr rfl) hsettled.balanced.fits hsettled.balanced.excess_nonneg
    hidle' hready'
  exact hsecond.bind fun _ _ _ _ => (haltsOnly_modify _).ends

theorem ends_of_passesEnd (hproper : g.Proper)
    (hpasses : PassesEnd g settings.engine (settings.granularity.batch g.nodeCount g.arcCount)
      (Pass.threshold g settings.frequency))
    (hfits : g.Fits s.preflow.flow) (hquiet : s.journal.Quiet) :
    Ends (Overflows g.nodeCount (settings.granularity.batch g.nodeCount g.arcCount))
      (fun fuel => run settings fuel) s := by
  have hsaturated := (Preflow.saturating_saturate hfits).balanced
  have hstart := preflow_start settings s.preflow.saturate s.journal
  unfold run discharging
  dsimp only
  refine ends_modify_bind ?_
  refine Ends.bind (Ends.onPart ?_) fun _ _ r _ => (haltsOnly_modify _).ends
  refine ends_bothPasses (d := .start settings s.preflow.saturate s.journal) hproper ?_ ?_ ?_
    (idle_start _ _ _) (ready_start _ _ (fun _ h => h) (Or.inl hquiet))
  · rw [engine_start]
    exact hpasses
  · rw [hstart]
    exact hsaturated.fits
  · rw [hstart]
    exact hsaturated.excess_nonneg

/-- A run of the sequential engine ends, over any exact amounts: both of its passes make
finitely many discharges. -/
theorem ends_sequential (hbuild : p.build = .ok g) (hengine : settings.engine = .sequential)
    (hfits : g.Fits s.preflow.flow) (hquiet : s.journal.Quiet) :
    Ends (Overflows g.nodeCount (settings.granularity.batch g.nodeCount g.arcCount))
      (fun fuel => run settings fuel) s := by
  have hproper := Problem.proper_of_build hbuild
  refine ends_of_passesEnd hproper ?_ hfits hquiet
  rw [hengine]
  exact passesEnd_sequential hproper (settings.granularity.one_le_batch _ _) _

/-- Labels are recomputed after every discharge. -/
def restless : Settings := ⟨.sequential, .none, 1e9, .nodes 1⟩

theorem ends_sequential_bottleneck : ∃ g, Problem.bottleneck.build = .ok g ∧
    restless.engine = .sequential ∧ g.Fits (initial g).preflow.flow ∧ (initial g).journal.Quiet ∧
    Ends (Overflows g.nodeCount (restless.granularity.batch g.nodeCount g.arcCount))
      (fun fuel => run restless fuel) (initial g) := by
  obtain ⟨g, hbuild⟩ := Problem.bottleneck_build
  have hfits := (FlowGraph.isFlow_initialFlow (Problem.proper_of_build hbuild)).fits
  exact ⟨g, hbuild, rfl, hfits, ⟨rfl, rfl⟩, ends_sequential hbuild rfl hfits ⟨rfl, rfl⟩⟩

/-- A run of the parallel engine ends over the integers: both of its passes make finitely many
rounds, whether labels are recomputed after each of them or never. -/
theorem ends_parallel {p : Problem ℤ} {g : FlowGraph ℤ} {s : TwoPass g}
    (hbuild : p.build = .ok g) (hengine : settings.engine = .parallel)
    (hfits : g.Fits s.preflow.flow) (hquiet : s.journal.Quiet) :
    Ends (Overflows g.nodeCount (settings.granularity.batch g.nodeCount g.arcCount))
      (fun fuel => run settings fuel) s := by
  have hproper := Problem.proper_of_build hbuild
  refine ends_of_passesEnd hproper ?_ hfits hquiet
  rw [hengine]
  exact passesEnd_parallel hproper (settings.granularity.one_le_batch _ _) _

theorem ends_parallel_bottleneck : ∃ g, Problem.bottleneck.build = .ok g ∧
    pairwise.engine = .parallel ∧ g.Fits (initial g).preflow.flow ∧ (initial g).journal.Quiet ∧
    Ends (Overflows g.nodeCount (pairwise.granularity.batch g.nodeCount g.arcCount))
      (fun fuel => run pairwise fuel) (initial g) := by
  obtain ⟨g, hbuild⟩ := Problem.bottleneck_build
  have hfits := (FlowGraph.isFlow_initialFlow (Problem.proper_of_build hbuild)).fits
  exact ⟨g, hbuild, rfl, hfits, ⟨rfl, rfl⟩, ends_parallel hbuild rfl hfits ⟨rfl, rfl⟩⟩

end TwoPass

end PushRelabel
