import PushRelabel.Proofs.Halting

/-! # What computations leave in any case

Whether a computation ends well or halts early, it leaves a state, and what is left after an
interruption is used again. Operations on a working set leave its slots in place, so it has as
many of them as before, even if there was no room for an element. If a computation ends well, it
does not matter how much fuel it was given.
-/

namespace PushRelabel

variable {ε σ τ α β : Type} {s : σ} {P Q : σ → Prop}

/-- The state that is left has a property. -/
def Leaves (P : σ → Prop) : EStateM.Result ε σ α → Prop
  | .ok _ t => P t
  | .error _ t => P t

/-- The state that a computation leaves, however it ends. -/
def leftBy : EStateM.Result ε σ α → σ
  | .ok _ t => t
  | .error _ t => t

theorem leaves_iff_leftBy {r : EStateM.Result ε σ α} : Leaves P r ↔ P (leftBy r) := by
  cases r <;> rfl

theorem leaves_iff {r : EStateM.Result ε σ α} :
    Leaves P r ↔ (∀ a t, r = .ok a t → P t) ∧ ∀ e t, r = .error e t → P t := by
  cases r <;> simp [Leaves]

theorem leaves_embedded_iff {embedding : τ → σ} {r : EStateM.Result ε τ α} :
    Leaves P (embedded embedding r) ↔ Leaves (fun t => P (embedding t)) r := by
  cases r <;> rfl

theorem leaves_true (r : EStateM.Result ε σ α) : Leaves (fun _ => True) r := by
  cases r <;> trivial

theorem leaves_pure (a : α) (h : P s) : Leaves P ((pure a : EStateM ε σ α) s) := h

theorem leaves_throw (e : ε) (h : P s) : Leaves P ((throw e : EStateM ε σ α) s) := h

theorem leaves_modify {f : σ → σ} (h : P (f s)) :
    Leaves P ((modify f : EStateM ε σ PUnit) s) := h

theorem leaves_checkRunning (running : Bool) (h : P s) :
    Leaves P ((checkRunning running : EStateM Halt σ Unit) s) := by
  cases running with
  | true => exact h
  | false => exact h

namespace Leaves

theorem mono {r : EStateM.Result ε σ α} (h : Leaves P r) (himp : ∀ t, P t → Q t) : Leaves Q r := by
  cases r with
  | ok a t => exact himp t h
  | error e t => exact himp t h

theorem get {f : σ → EStateM ε σ β} (h : Leaves P (f s s)) :
    Leaves P ((MonadState.get >>= f) s) := h

theorem modify {k : σ → σ} {f : PUnit → EStateM ε σ β} (h : Leaves P (f PUnit.unit (k s))) :
    Leaves P ((MonadState.modifyGet (fun s => (PUnit.unit, k s)) >>= f) s) := h

theorem bind {x : EStateM ε σ α} {f : α → EStateM ε σ β} (hx : Leaves P (x s))
    (hf : ∀ a t, x s = .ok a t → P t → Leaves P (f a t)) : Leaves P ((x >>= f) s) := by
  change Leaves P (EStateM.bind x f s)
  unfold EStateM.bind
  cases hresult : x s with
  | ok a t => exact hf a t hresult (leaves_iff.mp hx |>.1 a t hresult)
  | error e t => exact leaves_iff.mp hx |>.2 e t hresult

theorem onPart {R : τ → Prop} {part : σ → τ} {update : σ → τ → σ} {f : EStateM Halt τ β}
    (hf : Leaves R (f (part s))) (hupdate : ∀ t, R t → P (update s t)) :
    Leaves P (PushRelabel.onPart part update f s) := by
  unfold PushRelabel.onPart
  cases hresult : f (part s) with
  | ok b t => exact hupdate t (leaves_iff.mp hf |>.1 b t hresult)
  | error h t => exact hupdate t (leaves_iff.mp hf |>.2 h t hresult)

theorem onSet {R : WorkingSet α → Prop} {S : WorkingSet α × σ → Prop}
    {f : EStateM Fault (WorkingSet α) β} {w : WorkingSet α} (hf : Leaves R (f w))
    (hkeeps : ∀ w, R w → S (w, s)) : Leaves S (PushRelabel.onSet f (w, s)) := by
  unfold PushRelabel.onSet
  dsimp only
  cases hresult : f w with
  | ok b w' => exact hkeeps w' (leaves_iff.mp hf |>.1 b w' hresult)
  | error e w' => exact hkeeps w' (leaves_iff.mp hf |>.2 e w' hresult)

end Leaves

/-- What holds wherever a loop may take a step, and after each of its steps, is left by it. -/
theorem leaves_iterate {step : EStateM Halt σ Bool} {fuel : Nat} (invariant : σ → Prop)
    (hkeeps : ∀ s t, invariant s → step s = .ok true t → invariant t)
    (hleaves : ∀ s, invariant s → P s ∧ Leaves P (step s)) (hs : invariant s) :
    Leaves P (iterate step fuel s) := by
  induction fuel generalizing s with
  | zero => exact leaves_throw _ (hleaves s hs).1
  | succ fuel ih =>
      refine Leaves.bind (hleaves s hs).2 fun again t hstep ht => ?_
      cases again with
      | true => exact ih (hkeeps s t hs hstep)
      | false => exact ht

/-! ## Any amount of fuel -/

/-- Whatever fuel a computation is given, it ends well in one way only. -/
def Univocal (x : Nat → EStateM ε σ α) : Prop :=
  ∀ ⦃s m n a b t r⦄, x m s = .ok a t → x n s = .ok b r → a = b ∧ t = r

theorem univocal_const (x : EStateM ε σ α) : Univocal fun _ => x := by
  intro s m n a b t r h h'
  exact EStateM.Result.ok.inj (h.symm.trans h')

theorem Univocal.bind {x : Nat → EStateM ε σ α} {f : Nat → α → EStateM ε σ β} (hx : Univocal x)
    (hf : ∀ a, Univocal fun fuel => f fuel a) : Univocal fun fuel => x fuel >>= f fuel := by
  intro s m n b b' t r h h'
  obtain ⟨a, q, hfirst, hrest⟩ := bind_eq_ok_iff.mp h
  obtain ⟨a', q', hfirst', hrest'⟩ := bind_eq_ok_iff.mp h'
  obtain ⟨rfl, rfl⟩ := hx hfirst hfirst'
  exact hf a hrest hrest'

theorem univocal_iterate (step : EStateM Halt σ Bool) : Univocal (iterate step) := by
  intro s m n a b t r h h'
  induction m generalizing n s with
  | zero => exact absurd h throw_ne_ok
  | succ m ih =>
      cases n with
      | zero => exact absurd h' throw_ne_ok
      | succ n =>
          obtain ⟨again, q, hstep, hrest⟩ := bind_eq_ok_iff.mp h
          obtain ⟨again', q', hstep', hrest'⟩ := bind_eq_ok_iff.mp h'
          obtain ⟨rfl, rfl⟩ := EStateM.Result.ok.inj (hstep.symm.trans hstep')
          cases again with
          | true => exact ih hrest hrest'
          | false => exact EStateM.Result.ok.inj (hrest.symm.trans hrest')

namespace WorkingSet

variable {n : Nat} {w : WorkingSet α}

theorem leaves_push (h : w.capacity = n) (a : α) : Leaves (fun w => w.capacity = n) (push a w) := by
  unfold push
  split
  next hroom => exact (Array.size_set hroom).trans h
  next => exact h

theorem leaves_pushAll (h : w.capacity = n) (as : List α) :
    Leaves (fun w => w.capacity = n) (pushAll as w) := by
  unfold pushAll
  split
  · exact h
  · dsimp only
    split
    · exact (size_fill _ _ _).trans h
    · exact h

/-- A set still has the same elements in the same slots. -/
structure Keeps (w w' : WorkingSet α) : Prop where
  slots_eq : w'.slots = w.slots
  size_eq : w'.size = w.size

theorem Keeps.toList_eq {w' : WorkingSet α} (h : w.Keeps w') : w'.toList = w.toList :=
  toList_congr h.slots_eq h.size_eq

theorem Keeps.trans {w' w'' : WorkingSet α} (h : w.Keeps w') (h' : w'.Keeps w'') : w.Keeps w'' :=
  ⟨h'.slots_eq.trans h.slots_eq, h'.size_eq.trans h.size_eq⟩

theorem leaves_claim (w : WorkingSet α) (count : Nat) : Leaves w.Keeps (claim count w) := by
  have hadvance : Leaves w.Keeps (advance count w) := ⟨rfl, rfl⟩
  unfold claim
  refine Leaves.get (Leaves.bind hadvance fun start w' _ hw => ?_)
  split
  · cases Word.add? start count with
    | some stop => exact leaves_pure _ hw
    | none => exact leaves_throw _ hw
  · exact leaves_pure _ hw

theorem leaves_between (w : WorkingSet α) (start stop : Nat) :
    Leaves w.Keeps (between start stop w) := by
  unfold between
  split
  · exact ⟨rfl, rfl⟩
  · exact ⟨rfl, rfl⟩

/-- However consuming a set ends, elements were visited from the cursor on, in order. -/
theorem leaves_consumeFrom {batch fuel : Nat} {running : Bool} {visit : α → σ → σ} :
    Leaves (fun r => w.Keeps r.1 ∧ ∃ as, as <+: w.toList.drop w.cursor ∧
      r.2 = as.foldl (fun s a => visit a s) s) (consumeFrom batch running visit fuel (w, s)) := by
  induction fuel generalizing w s with
  | zero => exact ⟨⟨rfl, rfl⟩, [], List.nil_prefix, rfl⟩
  | succ fuel ih =>
      have hstill : ∀ w', w.Keeps w' → w.Keeps w' ∧ ∃ as, as <+: w.toList.drop w.cursor ∧
          s = as.foldl (fun s a => visit a s) s :=
        fun w' hw => ⟨hw, [], List.nil_prefix, rfl⟩
      unfold consumeFrom
      refine Leaves.bind (.onSet (leaves_claim w batch) hstill) fun range r hrange hr => ?_
      rcases r with ⟨w₁, s₁⟩
      obtain ⟨hclaimed, rfl⟩ := onSet_eq_ok_iff.mp hrange
      obtain ⟨-, hsize, ⟨rfl, -⟩ | ⟨rfl, -, hcursor⟩⟩ := claim_eq_ok hclaimed
      · exact hr
      refine Leaves.bind (leaves_checkRunning running hr) fun _ r hrunning _ => ?_
      obtain ⟨-, rfl⟩ := checkRunning_eq_ok_iff.mp hrunning
      refine Leaves.bind (.onSet (leaves_between w₁ _ _) fun w' hw => hstill w' (hr.1.trans hw))
        fun as r hread _ => ?_
      rcases r with ⟨w₂, s₂⟩
      obtain ⟨hbetween, rfl⟩ := onSet_eq_ok_iff.mp hread
      rw [← hsize] at hbetween
      obtain ⟨rfl, rfl⟩ := between_eq_ok hbetween
      -- the batch, and what is visited after it, come one after the other from the cursor on
      have hsplit : w.toList.drop w.cursor =
          (w₂.toList.take (w.cursor + batch)).drop w.cursor ++ w₂.toList.drop w₂.cursor := by
        rw [hr.1.toList_eq, hcursor, List.drop_take, Nat.add_sub_cancel_left, ← List.drop_drop]
        exact (List.take_append_drop batch _).symm
      refine Leaves.mono (ih (w := w₂)) fun r hrest => ?_
      obtain ⟨hkeeps, as, has, hlast⟩ := hrest
      refine ⟨hr.1.trans hkeeps, _, hsplit ▸ (List.prefix_append_right_inj _).mpr has, ?_⟩
      rw [hlast, List.foldl_append]

theorem leaves_consume {batch : Nat} {running : Bool} {visit : α → σ → σ} :
    Leaves (fun r => w.Keeps r.1 ∧ ∃ as, as <+: w.toList.drop w.cursor ∧
      r.2 = as.foldl (fun s a => visit a s) s) (consume batch running visit (w, s)) :=
  leaves_consumeFrom

end WorkingSet

end PushRelabel
