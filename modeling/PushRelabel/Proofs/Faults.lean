import PushRelabel.Proofs.Delivered
import PushRelabel.Proofs.FlowGraph.Terminals
import PushRelabel.Proofs.Pass.LabelRange
import PushRelabel.Proofs.Termination
import PushRelabel.Solver

/-! # Runs do not fault

The bounds of all tables hold over whole runs, whatever the arithmetic. A node is in a working set
or a frontier once, labels stay up to the sentinel, and positions stay words also for batches of
extreme sizes. So a run over tables that fit into memory halts early only if it is asked to stop.
-/

namespace PushRelabel

variable {K : Type}

namespace Granularity

/-- A number of nodes or arcs is a word. -/
def IsWord : Granularity → Prop
  | nodes count => count < Word.size
  | arcs count => count < Word.size

instance : DecidablePred IsWord
  | nodes count => inferInstanceAs (Decidable (count < Word.size))
  | arcs count => inferInstanceAs (Decidable (count < Word.size))

theorem IsWord.batch_lt {granularity : Granularity} (h : granularity.IsWord)
    (nodeCount arcCount : Nat) : granularity.batch nodeCount arcCount < Word.size := by
  have hone : 1 < Word.size := by decide
  unfold batch
  cases granularity with
  | nodes count => exact max_lt h hone
  | arcs count =>
      dsimp only
      split
      · exact max_lt h hone
      · exact max_lt (UInt64.toNat_lt _) hone

end Granularity

theorem Word.add?_one {a : Nat} (h : a < Word.largest) : Word.add? a 1 = some (a + 1) := by
  refine Word.add?_eq_some_iff.mpr ⟨?_, rfl⟩
  simp only [Word.largest, Word.size] at h ⊢
  omega

/-- What fits into memory is less than the largest word. -/
theorem Room.Holds.lt_largest {count : Nat} (h : Room.Holds Word.bytes count) :
    count < Word.largest := by
  simp only [Room.Holds, Word.bytes, Room.bytes] at h
  simp only [Word.largest, Word.size]
  omega

/-- The tables of a flow graph fit into memory if those of its network do. -/
theorem Problem.holds_of_build [Quantity K] {p : Problem K} {g : FlowGraph K}
    (hbuild : p.build = .ok g) (hroom : Room.Holds Room.rowBytes p.network.order) :
    Room.Holds Word.bytes g.nodeCount := by
  obtain ⟨c, -, rfl⟩ := except_map_eq_ok_iff.mp hbuild
  have hsplits : p.splits.size ≤ p.network.order := by
    unfold splits
    rw [List.size_toArray]
    exact (List.length_filter_le _ _).trans List.length_finRange.le
  change Room.Holds Word.bytes (p.network.order + 2 + p.splits.size)
  simp only [Room.Holds, Room.rowBytes, Word.bytes, Room.bytes] at hroom ⊢
  omega

namespace Discharger

variable [Quantity K] {g : FlowGraph K} {d e : Discharger g} {source sink : g.Node} {batch : Nat}
  {excused : Halt → Prop}

theorem Prepared.idle (h : d.Prepared source) : d.Idle := by
  cases d with
  | fifo s => trivial
  | rounds s => exact h.1

theorem haltsOnly_run (h : d.Ready excused batch) (hidle : d.Idle) (hbatch : 1 ≤ batch)
    (hne : source ≠ sink) (hfuel : excused .outOfFuel) (threshold fuel : Nat) :
    HaltsOnly excused (run threshold fuel source sink) d := by
  cases d with
  | fifo s =>
      have hends := Fifo.haltsOnly_run h hbatch hne hfuel threshold fuel
      exact hends.embed (run_fifo threshold fuel source sink s)
  | rounds s =>
      have hends := Rounds.haltsOnly_run h hbatch hne hidle hfuel threshold fuel
      exact hends.embed (run_rounds threshold fuel source sink s)

/-- What discharging next does to labels and to the gap detector, a watch accepts. -/
def InRange (sink : g.Node) : Discharger g → Prop
  | fifo s => s.InRange sink
  | rounds s => s.InRange sink

theorem Between.inRange (h : Between source sink d e) (hidle : d.Idle) (hne : source ≠ sink)
    (hn : g.nodeCount < Word.largest) : e.InRange sink := by
  cases h with
  | fifo h => exact h.inRange hne hn
  | rounds h => exact h.inRange hne hidle hn

theorem Between.idle (h : Between source sink d e) (hidle : d.Idle) (hne : source ≠ sink) :
    e.Idle := by
  cases h with
  | fifo => trivial
  | rounds h => exact (h.kept hne hidle).idle.added_eq

end Discharger

namespace TwoPass

open Discharger

variable [Quantity K] {g : FlowGraph K} {settings : Settings} {s : TwoPass g}
  {source sink : g.Node} {d : Discharger g} {excused : Halt → Prop} {batch : Nat}

/-- The dischargers at which a run arrives in both passes between two discharges or between two
rounds, with the terminals of the pass. The second pass may follow at any time. -/
inductive Arrives (settings : Settings) (s : TwoPass g) : g.Node → g.Node → Discharger g → Prop
  | firstPass {d : Discharger g}
      (hfirst : Between g.source g.target (.start settings s.preflow.saturate s.journal) d) :
      Arrives settings s g.source g.target d
  | secondPass {d e : Discharger g} (journal : Journal K)
      (hfirst : Between g.source g.target (.start settings s.preflow.saturate s.journal) d)
      (hsecond : Between g.target g.source (d.resume d.pass.toPreflow journal) e) :
      Arrives settings s g.target g.source e

theorem Arrives.inRange (h : Arrives settings s source sink d) (hn : g.nodeCount < Word.largest) :
    d.InRange sink := by
  have hstart := idle_start settings s.preflow.saturate s.journal
  cases h with
  | firstPass hfirst => exact hfirst.inRange hstart g.source_ne_target hn
  | secondPass journal hfirst hsecond =>
      have hidle := hfirst.idle hstart g.source_ne_target
      exact hsecond.inRange (hidle.resume _ _) g.source_ne_target.symm hn

/-- Both passes halt early only with an excuse. -/
theorem haltsOnly_run (hoverflow : ∀ h, WorkingSet.Overflows g.nodeCount
      (settings.granularity.batch g.nodeCount g.arcCount) h → excused h)
    (hbears : s.journal.Bears excused) (hfuel : excused .outOfFuel) (fuel : Nat) :
    HaltsOnly excused (run settings fuel) s := by
  have hbatch := settings.granularity.one_le_batch g.nodeCount g.arcCount
  unfold run discharging
  dsimp only
  refine haltsOnly_modify_bind ?_
  refine HaltsOnly.bind (HaltsOnly.onPart ?_) fun _ _ _ => haltsOnly_modify _
  have hready := ready_start settings s.preflow.saturate hoverflow hbears
  have hprepared := prepared_start settings s.preflow.saturate s.journal g.source
  refine HaltsOnly.bind ?_ fun _ e hfirst => ?_
  · exact (Discharger.haltsOnly_run hready hprepared.idle hbatch g.source_ne_target hfuel _ _).bind
      fun _ _ _ => haltsOnly_modify _
  · obtain ⟨_, r, hrun, hrecord⟩ := bind_eq_ok_iff.mp hfirst
    have hidle := (prepared_of_firstPass hprepared hfirst).idle
    obtain rfl := modify_eq_ok_iff.mp hrecord
    have hready' := (ready_of_run hready hprepared.idle g.source_ne_target hrun).record
      (.preflowFinished r.pass.excess[g.target])
    exact (Discharger.haltsOnly_run hready' hidle hbatch g.source_ne_target.symm hfuel _ _).bind
      fun _ _ _ => haltsOnly_modify _

end TwoPass

namespace Solver

variable [Quantity K] {s : Solver K}

/-- How a run may halt early: it is asked to stop, now or later, or has used up its fuel. -/
def Stoppable (s : Solver K) (stopAt : Option Nat) (halt : Halt) : Prop :=
  (halt = .interrupted ∧ (s.stopped = true ∨ stopAt ≠ none)) ∨ halt = .outOfFuel

omit [Quantity K] in
theorem bears_start (s : Solver K) (stopAt : Option Nat) :
    (Journal.start s.stopped stopAt : Journal K).Bears (s.Stoppable stopAt) := by
  by_cases hflag : s.stopped = true ∨ stopAt ≠ none
  · exact Or.inr (Or.inl ⟨rfl, hflag⟩)
  · rw [not_or, Bool.not_eq_true, not_not] at hflag
    exact Or.inl ⟨hflag.1, hflag.2⟩

/-- If tables fit into memory and numbers of nodes or arcs are words, a run fails only at a problem
that is not acceptable, or where it may halt. -/
theorem run_eq_error (hroom : ∀ g, s.problem.build = .ok g → Room.Holds Word.bytes g.nodeCount)
    (hword : s.settings.granularity.IsWord) {fuel : Nat} {stopAt : Option Nat} {e : SolveError K}
    {t : Solver K} (herror : s.run fuel stopAt = .error e t) :
    (∃ cause, s.problem.build = .error cause ∧ e = .input cause) ∨
      ∃ halt, e = .halt halt ∧ s.Stoppable stopAt halt := by
  unfold run at herror
  cases hbuild : s.problem.build with
  | error cause =>
      simp only [hbuild, EStateM.Result.error.injEq] at herror
      exact Or.inl ⟨cause, rfl, herror.1.symm⟩
  | ok g =>
      simp only [hbuild] at herror
      have hcountable := And.intro (hroom g hbuild) (hword.batch_lt g.nodeCount g.arcCount)
      have hbears := ((s.bears_start stopAt).foldl_record s.opening).foldl_record (buildEvents g)
      have hends : HaltsOnly (s.Stoppable stopAt) (TwoPass.run s.settings fuel)
          (.start g.initialFlow ((buildEvents g).foldl Journal.record
            (s.opening.foldl Journal.record (.start s.stopped stopAt)))) :=
        TwoPass.haltsOnly_run (fun h hoverflows => absurd hcountable hoverflows.2) hbears
          (Or.inr rfl) fuel
      split at herror
      next => cases herror
      next halt passes hrun =>
        obtain ⟨rfl, -⟩ := EStateM.Result.error.inj herror
        exact Or.inr ⟨halt, rfl, hends halt passes hrun⟩

/-- Over tables that fit into memory, with numbers of nodes or arcs that are words, a run fails
only if the problem is not acceptable, or halts because it is asked to stop or has used up its
fuel. Wherever it arrives, labels are up to the sentinel, one more than a label is a word, and what
is done next to labels and to the gap detector, a watch accepts. -/
theorem never_faults (hroom : ∀ g, s.problem.build = .ok g → Room.Holds Word.bytes g.nodeCount)
    (hword : s.settings.granularity.IsWord) :
    (∀ fuel stopAt e t, s.run fuel stopAt = .error e t →
      (∃ cause, s.problem.build = .error cause ∧ e = .input cause) ∨
      (e = .halt .interrupted ∧ (s.stopped = true ∨ stopAt ≠ none)) ∨ e = .halt .outOfFuel) ∧
    ∀ g, s.problem.build = .ok g →
      (∀ label ≤ g.nodeCount, Word.add? label 1 = some (label + 1)) ∧
      ∀ journal source sink d,
        TwoPass.Arrives s.settings (.start g.initialFlow journal) source sink d →
          d.InRange sink := by
  refine ⟨fun fuel stopAt e t herror => ?_, fun g hbuild => ?_⟩
  · rcases run_eq_error hroom hword herror with hinput | ⟨halt, rfl, ⟨rfl, hflag⟩ | rfl⟩
    · exact Or.inl hinput
    · exact Or.inr (Or.inl ⟨rfl, hflag⟩)
    · exact Or.inr (Or.inr rfl)
  · have hlargest := (hroom g hbuild).lt_largest
    exact ⟨fun label hlabel => Word.add?_one (hlabel.trans_lt hlargest),
      fun journal source sink d hd => hd.inRange hlargest⟩

/-- One arc without limit between terminals without capacities, and batches of as many nodes as a
word can count. -/
def limitless : Solver Float :=
  { ofProblem .limitless with settings := ⟨.parallel, .buckets, 0.5, .nodes Word.largest⟩ }

/-- The labels at the end of the first pass. -/
def limitlessLabels? : Option (List Nat) :=
  match limitless.problem.build with
  | .error _ => none
  | .ok g =>
      match Discharger.run 1000 100 g.source g.target
        (.start limitless.settings (Preflow.ofFlow g.initialFlow).saturate (.start false none)) with
      | .ok _ d => some d.pass.labels.toList
      | .error _ _ => none

theorem limitlessLabels?_eq : limitlessLabels? = some [4, 4, 4, 0] := by
  decide +kernel

/-- Infinite excess goes to the super-target and is left behind as well, and still there is no
fault. -/
theorem never_faults_limitless :
    (∀ g, limitless.problem.build = .ok g → Room.Holds Word.bytes g.nodeCount) ∧
    limitless.settings.granularity.IsWord ∧
    (∀ fuel stopAt e t, limitless.run fuel stopAt = .error e t →
      (∃ cause, limitless.problem.build = .error cause ∧ e = .input cause) ∨
      (e = .halt .interrupted ∧ (limitless.stopped = true ∨ stopAt ≠ none)) ∨
      e = .halt .outOfFuel) ∧
    ∃ g d, limitless.problem.build = .ok g ∧
      TwoPass.Arrives limitless.settings (.start g.initialFlow (.start false none))
        g.source g.target d ∧
      d.pass.labels.toList = [4, 4, 4, 0] ∧ d.InRange g.target := by
  have hroom : ∀ g, limitless.problem.build = .ok g → Room.Holds Word.bytes g.nodeCount :=
    fun g hbuild => Problem.holds_of_build hbuild (by decide)
  have hword : limitless.settings.granularity.IsWord := by decide
  obtain ⟨hends, harrives⟩ := never_faults hroom hword
  refine ⟨hroom, hword, hends, ?_⟩
  have hlabels := limitlessLabels?_eq
  unfold limitlessLabels? at hlabels
  cases hbuild : limitless.problem.build with
  | error _ => simp [hbuild] at hlabels
  | ok g =>
      simp only [hbuild] at hlabels
      split at hlabels
      next d hrun =>
        have hfirst : TwoPass.Arrives limitless.settings
            (.start g.initialFlow (.start false none)) g.source g.target d :=
          .firstPass (Discharger.between_of_run hrun)
        exact ⟨g, d, rfl, hfirst, Option.some.inj hlabels, (harrives g hbuild).2 _ _ _ _ hfirst⟩
      next => simp at hlabels

end Solver

end PushRelabel
