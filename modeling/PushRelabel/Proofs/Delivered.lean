import PushRelabel.Proofs.Accounts
import PushRelabel.Proofs.Bystander

/-! # What the first pass delivers

Each pass leaves the arcs of the other terminal alone. So as much is delivered after the first
pass as after the complete run, down to the last bit.
-/

namespace PushRelabel

variable {K : Type} [Quantity K] {g : FlowGraph K}

theorem Discharger.univocal_run (threshold : Nat) (source sink : g.Node) :
    Univocal fun fuel => Discharger.run threshold fuel source sink := by
  have hfifo : Univocal fun fuel => Fifo.run threshold fuel source sink :=
    (univocal_const _).bind fun _ => (univocal_const _).bind fun _ =>
      (univocal_const _).bind fun _ => univocal_iterate _
  have hrounds : Univocal fun fuel => Rounds.run threshold fuel source sink :=
    (univocal_const _).bind fun _ => (univocal_const _).bind fun _ =>
      (univocal_const _).bind fun _ => univocal_iterate _
  intro d m n _ _ e e' h h'
  rcases run_eq_ok h with ⟨s, t, rfl, rfl, hs⟩ | ⟨s, t, rfl, rfl, hs⟩ <;>
    rcases run_eq_ok h' with ⟨s', t', heq, rfl, hs'⟩ | ⟨s', t', heq, rfl, hs'⟩
  · cases heq
    exact ⟨rfl, congrArg fifo (hfifo hs hs').2⟩
  · cases heq
  · cases heq
  · cases heq
    exact ⟨rfl, congrArg rounds (hrounds hs hs').2⟩

namespace TwoPass

open Discharger

variable {d e : Discharger g} {u : Unit} {threshold fuel : Nat}

theorem univocal_firstPass (threshold : Nat) :
    Univocal fun fuel => (firstPass threshold fuel : EStateM Halt (Discharger g) Unit) :=
  (univocal_run threshold _ _).bind fun _ => univocal_const _

theorem leaves_firstPass (h : d.Prepared g.source) (threshold fuel : Nat) :
    Leaves (Spares d.pass.toPreflow g.source g.target) (firstPass threshold fuel d) :=
  Leaves.bind (h.leaves_run g.source_ne_target threshold fuel)
    fun _ _ _ he => leaves_modify (he.record _)

theorem leaves_secondPass (h : d.Prepared g.target) (threshold fuel : Nat) :
    Leaves (Spares d.pass.toPreflow g.target g.source) (secondPass threshold fuel d) :=
  Leaves.bind (h.leaves_run g.source_ne_target.symm threshold fuel)
    fun _ _ _ he => leaves_modify (he.record _)

theorem prepared_of_firstPass (hd : d.Prepared g.source)
    (h : firstPass threshold fuel d = .ok u e) : e.Prepared g.target := by
  obtain ⟨r, journal, hrun, rfl⟩ := pass_eq_ok h
  exact (hd.run g.source_ne_target hrun g.target).resume _ _

/-- A run begins with a first pass of its own, and the second pass does not change what that has
delivered. -/
theorem exists_firstPass_of_run {settings : Settings} {s t : TwoPass g}
    (h : run settings fuel s = .ok u t) :
    ∃ d, firstPass (Pass.threshold g settings.frequency) fuel
        (.start settings s.preflow.saturate s.journal) = .ok () d ∧
      g.delivered t.preflow.flow = g.delivered d.pass.flow := by
  obtain ⟨d, e, hfirst, hsecond, heq⟩ := passes_of_run h
  have hprepared := prepared_of_firstPass (prepared_start _ _ _ g.source) hfirst
  have hspares := (leaves_iff.mp (leaves_secondPass hprepared _ _)).1 _ _ hsecond
  refine ⟨d, hfirst, FlowGraph.delivered_congr fun i hi => ?_⟩
  rw [heq]
  exact hspares.leavesAlone.flow_eq i (Or.inl hi)

theorem maximizePreflow_eq_ok_iff {settings : Settings} {s t : TwoPass g} :
    maximizePreflow settings fuel s = .ok u t ↔
      ∃ d, firstPass (Pass.threshold g settings.frequency) fuel
        (.start settings s.preflow s.journal) = .ok u d ∧ s.collect d = t := by
  unfold maximizePreflow discharging
  exact onPart_eq_ok_iff

/-- Neither pass sends anything from or to its source, which keeps the sentinel label and its
excess and never waits to be discharged: not between two discharges or rounds, and not where the
pass halts. If the complete run ends well, so does a maximum preflow computed alone, and it
delivers the same. -/
theorem delivered_after_firstPass (settings : Settings) (s : TwoPass g) :
    (∀ d, Between g.source g.target (.start settings s.preflow s.journal) d →
      d.Spares s.preflow g.source g.target) ∧
    (∀ threshold fuel, Leaves (Spares s.preflow g.source g.target)
      (firstPass threshold fuel (.start settings s.preflow s.journal))) ∧
    (∀ threshold fuel u d,
      firstPass threshold fuel (.start settings s.preflow s.journal) = .ok u d →
        (∀ e, Between g.target g.source d e → e.Spares d.pass.toPreflow g.target g.source) ∧
        ∀ threshold fuel, Leaves (Spares d.pass.toPreflow g.target g.source)
          (secondPass threshold fuel d)) ∧
    ∀ fuel u t, run settings fuel s = .ok u t →
      (∃ u p, maximizePreflow settings fuel s.saturate = .ok u p) ∧
      ∀ fuel u p, maximizePreflow settings fuel s.saturate = .ok u p →
        g.delivered p.preflow.flow = g.delivered t.preflow.flow := by
  have hstart := preflow_start settings s.preflow s.journal
  have hprepared := prepared_start settings s.preflow s.journal g.source
  refine ⟨fun d hd => ?_, fun threshold fuel => ?_, fun threshold fuel u d hd => ⟨fun e he => ?_,
    fun threshold fuel => ?_⟩, fun fuel u t hrun => ?_⟩
  · exact hstart ▸ hd.spares hprepared g.source_ne_target
  · have hleaves := leaves_firstPass hprepared threshold fuel
    rwa [hstart] at hleaves
  · exact he.spares (prepared_of_firstPass hprepared hd) g.source_ne_target.symm
  · exact leaves_secondPass (prepared_of_firstPass hprepared hd) threshold fuel
  · obtain ⟨d, hfirst, hdelivered⟩ := exists_firstPass_of_run hrun
    refine ⟨⟨(), _, maximizePreflow_eq_ok_iff.mpr ⟨d, hfirst, rfl⟩⟩, fun fuel' u p hp => ?_⟩
    obtain ⟨d', hfirst', rfl⟩ := maximizePreflow_eq_ok_iff.mp hp
    obtain ⟨-, rfl⟩ := univocal_firstPass _ hfirst hfirst'
    exact hdelivered.symm

/-- What a complete run in rounds delivers. -/
def bottleneckDelivered? : Option ℤ :=
  match Problem.bottleneck.build with
  | .error _ => none
  | .ok g =>
      match run pairwise 100 (initial g) with
      | .ok _ t => some (g.delivered t.preflow.flow)
      | .error _ _ => none

set_option maxRecDepth 10000 in
theorem bottleneckDelivered?_eq : bottleneckDelivered? = some 1 := by
  decide +kernel

/-- Two units are sent back in the second pass, and the one that was delivered stays. -/
theorem delivered_after_firstPass_bottleneck : ∃ g p t u, Problem.bottleneck.build = .ok g ∧
    run pairwise 100 (initial g) = .ok () t ∧ g.delivered t.preflow.flow = 1 ∧
    maximizePreflow pairwise 100 (initial g).saturate = .ok u p ∧
    g.delivered p.preflow.flow = g.delivered t.preflow.flow := by
  have hdelivered := bottleneckDelivered?_eq
  unfold bottleneckDelivered? at hdelivered
  cases hbuild : Problem.bottleneck.build with
  | error _ => simp [hbuild] at hdelivered
  | ok g =>
      simp only [hbuild] at hdelivered
      split at hdelivered
      next t hrun =>
        obtain ⟨-, -, -, hruns⟩ := delivered_after_firstPass pairwise (initial g)
        obtain ⟨⟨u, p, hp⟩, hsame⟩ := hruns 100 () t hrun
        exact ⟨g, p, t, u, rfl, hrun, Option.some.inj hdelivered, hp, hsame 100 u p hp⟩
      next => simp at hdelivered

end TwoPass

end PushRelabel
