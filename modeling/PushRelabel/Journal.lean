import PushRelabel.Gap.Detector

/-! # Journals

A computation reports what it does as events. A journal keeps them in order and
carries the stop flag of the computation, which may be set to rise at a certain
event.
-/

namespace PushRelabel

/-- How excess is moved to the sink. -/
inductive Engine where
  | sequential
  | parallel
deriving DecidableEq

def Engine.name : Engine → String
  | sequential => "sequential"
  | parallel => "parallel"

/-- How often labels were recomputed, gaps were found and nodes were discharged. -/
structure Tally where
  globalRelabelings : Nat
  gapRelabelings : Nat
  discharges : Nat

def Tally.zero : Tally := ⟨0, 0, 0⟩

inductive Event (K : Type) where
  | engineChosen (engine : Engine)
  | gapsDetected (strategy : GapStrategy)
  | frequencyChosen (frequency : Float)
  | terminalsGiven (sources targets : Nat)
  | buildStarted (nodes arcs : Nat)
  | buildFinished (nodes splits arcs : Nat)
  | relabelStarted
  | relabelFinished (largest : Nat)
  | dischargeStarted (engine : Engine) (active sink : Nat)
  | gapFound (label retired : Nat)
  | nodesReactivated (count : Nat)
  | preflowFinished (delivered : K)
  | excessReturned (left : K)
  | flowFinished (total : K) (tally : Tally)

structure Journal (K : Type) where
  events : Array (Event K)
  /-- The flag rises when there are so many events. -/
  stopAt : Option Nat
  stopped : Bool

namespace Journal

variable {K : Type}

def start (stopped : Bool) (stopAt : Option Nat) : Journal K := ⟨#[], stopAt, stopped⟩

def running (j : Journal K) : Bool := !j.stopped

def record (j : Journal K) (e : Event K) : Journal K :=
  { j with
    events := j.events.push e
    stopped := j.stopped || j.stopAt == some (j.events.size + 1) }

end Journal

end PushRelabel
