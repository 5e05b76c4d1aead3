import Mathlib
import PushRelabel.Halt

/-! # Computations in lockstep

Two computations run in lockstep if they end well with the same result or halt early for the same
reason, and leave related states. How their states are related may change from one step to the
next, but where they halt early it is always the same.
-/

namespace PushRelabel

variable {ε σ τ σ' τ' α β : Type} {s : σ} {t : τ}

inductive Lockstep (onHalt onOk : σ → τ → Prop) :
    EStateM.Result ε σ α → EStateM.Result ε τ α → Prop
  | ok (a : α) {s : σ} {t : τ} (h : onOk s t) : Lockstep onHalt onOk (.ok a s) (.ok a t)
  | error (e : ε) {s : σ} {t : τ} (h : onHalt s t) :
      Lockstep onHalt onOk (.error e s) (.error e t)

/-- The states from which a loop takes a step. -/
def visited (step : EStateM Halt σ Bool) : Nat → σ → List σ
  | 0, _ => []
  | fuel + 1, s =>
      s :: match step s with
        | .ok true t => visited step fuel t
        | _ => []

section Visited

variable {step : EStateM Halt σ Bool} {fuel : Nat} {r : σ}

/-- What every step keeps holds wherever a loop takes a step. -/
theorem invariant_of_mem_visited (invariant : σ → Prop)
    (hkeeps : ∀ s t, invariant s → step s = .ok true t → invariant t) (hs : invariant s)
    (hr : r ∈ visited step fuel s) : invariant r := by
  induction fuel generalizing s with
  | zero => exact absurd hr List.not_mem_nil
  | succ fuel ih =>
      rcases List.mem_cons.mp hr with rfl | hr
      · exact hs
      · split at hr
        next t hstep => exact ih (hkeeps s t hs hstep) hr
        next => exact absurd hr List.not_mem_nil

/-- From any of the states that it goes through, a loop goes on as if it started there. -/
theorem exists_visited_eq {before after : List σ} (h : visited step fuel s = before ++ r :: after) :
    ∃ fuel', visited step fuel' r = r :: after := by
  induction fuel generalizing s before with
  | zero => simp [visited] at h
  | succ fuel ih =>
      cases before with
      | nil =>
          obtain ⟨rfl, -⟩ := List.cons.inj h
          exact ⟨fuel + 1, h⟩
      | cons _ before =>
          obtain ⟨-, hrest⟩ := List.cons.inj h
          split at hrest
          next => exact ih hrest
          next => simp at hrest

end Visited

namespace Lockstep

variable {onHalt onOk onOk' : σ → τ → Prop}

theorem modify {f : σ → σ} {k : τ → τ} (h : onOk (f s) (k t)) :
    Lockstep onHalt onOk ((modify f : EStateM ε σ PUnit) s) ((modify k : EStateM ε τ PUnit) t) :=
  .ok PUnit.unit h

theorem mono {p : EStateM.Result ε σ α} {q : EStateM.Result ε τ α}
    (h : Lockstep onHalt onOk p q) (himp : ∀ s t, onOk s t → onOk' s t) :
    Lockstep onHalt onOk' p q := by
  cases h with
  | ok a h => exact .ok a (himp _ _ h)
  | error e h => exact .error e h

theorem get {f : σ → EStateM ε σ β} {k : τ → EStateM ε τ β}
    (h : Lockstep onHalt onOk (f s s) (k t t)) :
    Lockstep onHalt onOk ((MonadState.get >>= f) s) ((MonadState.get >>= k) t) :=
  h

theorem checkRunning (running : Bool) {s : σ} {t : τ} (hok : onOk s t) (hhalt : onHalt s t) :
    Lockstep onHalt onOk (PushRelabel.checkRunning running s)
      (PushRelabel.checkRunning running t) := by
  cases running with
  | true => exact .ok () hok
  | false => exact .error Halt.interrupted hhalt

theorem bind {x : EStateM ε σ α} {y : EStateM ε τ α} {f : α → EStateM ε σ β}
    {k : α → EStateM ε τ β} (h : Lockstep onHalt onOk (x s) (y t))
    (hnext : ∀ a p q, onOk p q → Lockstep onHalt onOk' (f a p) (k a q)) :
    Lockstep onHalt onOk' ((x >>= f) s) ((y >>= k) t) := by
  change Lockstep onHalt onOk' (EStateM.bind x f s) (EStateM.bind y k t)
  unfold EStateM.bind
  generalize x s = p at h
  generalize y t = q at h
  cases h with
  | ok a h => exact hnext a _ _ h
  | error e h => exact .error e h

theorem onPart {onHalt' onOk' : σ' → τ' → Prop} {x : EStateM Halt σ' α} {y : EStateM Halt τ' α}
    {part : σ → σ'} {part' : τ → τ'} {update : σ → σ' → σ} {update' : τ → τ' → τ}
    (h : Lockstep onHalt' onOk' (x (part s)) (y (part' t)))
    (hok : ∀ p q, onOk' p q → onOk (update s p) (update' t q))
    (hhalt : ∀ p q, onHalt' p q → onHalt (update s p) (update' t q)) :
    Lockstep onHalt onOk (PushRelabel.onPart part update x s)
      (PushRelabel.onPart part' update' y t) := by
  unfold PushRelabel.onPart
  generalize x (part s) = p at h
  generalize y (part' t) = q at h
  cases h with
  | ok a h => exact .ok a (hok _ _ h)
  | error e h => exact .error e (hhalt _ _ h)

theorem refl {r : EStateM.Result ε σ α} : Lockstep Eq Eq r r := by
  cases r with
  | ok a s => exact .ok a rfl
  | error e s => exact .error e rfl

/-- Loops run in lockstep if their steps do. -/
theorem iterate {x : EStateM Halt σ Bool} {y : EStateM Halt τ Bool} (fuel : Nat)
    (hstep : ∀ p q, onOk p q → Lockstep onHalt onOk (x p) (y q))
    (hhalt : ∀ p q, onOk p q → onHalt p q) (h : onOk s t) :
    Lockstep onHalt onOk (PushRelabel.iterate x fuel s) (PushRelabel.iterate y fuel t) := by
  induction fuel generalizing s t with
  | zero => exact .error Halt.outOfFuel (hhalt s t h)
  | succ fuel ih =>
      refine bind (hstep s t h) fun again p q hpq => ?_
      cases again with
      | true => exact ih hpq
      | false => exact .ok () hpq

/-- So do the states that they go through. -/
theorem visited {x : EStateM Halt σ Bool} {y : EStateM Halt τ Bool} (fuel : Nat)
    (hstep : ∀ p q, onOk p q → Lockstep onHalt onOk (x p) (y q)) (h : onOk s t) :
    List.Forall₂ onOk (PushRelabel.visited x fuel s) (PushRelabel.visited y fuel t) := by
  induction fuel generalizing s t with
  | zero => exact .nil
  | succ fuel ih =>
      refine .cons h ?_
      have hresult := hstep s t h
      generalize x s = p at hresult ⊢
      generalize y t = q at hresult ⊢
      cases hresult with
      | ok again hnext =>
          cases again with
          | true => exact ih hnext
          | false => exact .nil
      | error e _ => exact .nil

end Lockstep

end PushRelabel
