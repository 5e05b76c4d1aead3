import PushRelabel.Discharger

/-! # Maximum flows in two passes

The first pass saturates the arcs leaving the super-source and discharges towards
the super-target, which gives a maximum preflow: excess that cannot get there is
stranded. The second pass exchanges the terminals and sends stranded excess back,
so that flow is conserved at all other nodes.
-/

namespace PushRelabel

variable {K : Type}

structure TwoPass (g : FlowGraph K) where
  preflow : Preflow g
  /-- The tally of the last run. -/
  tally : Tally
  journal : Journal K

namespace TwoPass

variable [Quantity K] {g : FlowGraph K}

def start (flow : g.Flow) (journal : Journal K) : TwoPass g where
  preflow := .ofFlow flow
  tally := .zero
  journal := journal

/-- Saturates the arcs leaving the super-source. -/
def saturate (s : TwoPass g) : TwoPass g := { s with preflow := s.preflow.saturate }

def collect (s : TwoPass g) (d : Discharger g) : TwoPass g :=
  { s with preflow := d.pass.toPreflow, tally := d.pass.tally, journal := d.pass.journal }

def record (e : Discharger g → Event K) : EStateM Halt (Discharger g) Unit :=
  modify fun d => d.resume d.pass.toPreflow (d.pass.journal.record (e d))

def firstPass (threshold fuel : Nat) : EStateM Halt (Discharger g) Unit := do
  Discharger.run threshold fuel g.source g.target
  record fun d => .preflowFinished d.pass.excess[g.target]

def secondPass (threshold fuel : Nat) : EStateM Halt (Discharger g) Unit := do
  Discharger.run threshold fuel g.target g.source
  record fun d => .excessReturned (-d.pass.excess[g.source])

/-- Runs passes with a new discharger. -/
def discharging (settings : Settings) (f : EStateM Halt (Discharger g) Unit) :
    EStateM Halt (TwoPass g) Unit :=
  onPart (fun s => Discharger.start settings s.preflow s.journal) collect f

/-- Computes a maximum preflow from what the arcs leaving the super-source carry. -/
def maximizePreflow (settings : Settings) (fuel : Nat) : EStateM Halt (TwoPass g) Unit :=
  discharging settings (firstPass (Pass.threshold g settings.frequency) fuel)

/-- Computes a maximum flow. -/
def run (settings : Settings) (fuel : Nat) : EStateM Halt (TwoPass g) Unit := do
  let threshold := Pass.threshold g settings.frequency
  modify saturate
  discharging settings do
    firstPass threshold fuel
    secondPass threshold fuel
  modify fun s =>
    { s with journal := s.journal.record (.flowFinished (g.delivered s.preflow.flow) s.tally) }

end TwoPass

end PushRelabel
