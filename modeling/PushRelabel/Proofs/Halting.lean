import PushRelabel.Proofs.Success

/-! # Computations that do not halt early

A computation may halt early only for certain reasons. A loop ends, given enough fuel, if its
steps cannot go on forever and do not halt early for other reasons. Consuming a working set needs
no more fuel than it is given, and fails only if a position leaves the words, which does not happen
in a set that fits into memory.
-/

namespace PushRelabel

section Parts

variable {σ τ α β : Type} {s : σ} {excused : Halt → Prop}

/-- A computation that halts early has an excuse. -/
def HaltsOnly (excused : Halt → Prop) (x : EStateM Halt σ α) (s : σ) : Prop :=
  ∀ h t, x s = .error h t → excused h

theorem haltsOnly_pure (a : α) : HaltsOnly excused (pure a) s := by
  intro h t herror
  change EStateM.Result.ok a s = .error h t at herror
  cases herror

theorem haltsOnly_throw {e : Halt} (h : excused e) :
    HaltsOnly excused (throw e : EStateM Halt σ α) s := by
  intro e' t herror
  obtain ⟨rfl, -⟩ := EStateM.Result.error.inj herror
  exact h

theorem haltsOnly_modify (f : σ → σ) : HaltsOnly excused (modify f : EStateM Halt σ PUnit) s := by
  intro h t herror
  change EStateM.Result.ok PUnit.unit (f s) = .error h t at herror
  cases herror

theorem haltsOnly_checkRunning {running : Bool} (h : running = true ∨ excused .interrupted) :
    HaltsOnly excused (checkRunning running) s := by
  cases running with
  | true => exact haltsOnly_pure ()
  | false => exact haltsOnly_throw (h.resolve_left Bool.false_ne_true)

theorem HaltsOnly.bind {x : EStateM Halt σ α} {f : α → EStateM Halt σ β}
    (hx : HaltsOnly excused x s) (hf : ∀ a r, x s = .ok a r → HaltsOnly excused (f a) r) :
    HaltsOnly excused (x >>= f) s := by
  intro h t herror
  change EStateM.bind x f s = .error h t at herror
  rw [EStateM.bind] at herror
  cases hresult : x s with
  | ok a r =>
      rw [hresult] at herror
      exact hf a r hresult h t herror
  | error e r =>
      rw [hresult] at herror
      obtain ⟨rfl, rfl⟩ := EStateM.Result.error.inj herror
      exact hx e r hresult

theorem haltsOnly_get_bind {f : σ → EStateM Halt σ β} (hf : HaltsOnly excused (f s) s) :
    HaltsOnly excused (get >>= f) s := hf

theorem haltsOnly_modify_bind {f : σ → σ} {g : PUnit → EStateM Halt σ β}
    (hg : HaltsOnly excused (g PUnit.unit) (f s)) : HaltsOnly excused (modify f >>= g) s := hg

theorem HaltsOnly.onPart {part : σ → τ} {update : σ → τ → σ} {f : EStateM Halt τ β}
    (hf : HaltsOnly excused f (part s)) : HaltsOnly excused (onPart part update f) s := by
  intro h t herror
  rw [PushRelabel.onPart] at herror
  cases hresult : f (part s) with
  | ok b r => simp [hresult] at herror
  | error e r =>
      simp only [hresult, EStateM.Result.error.injEq] at herror
      exact herror.1 ▸ hf e r hresult

/-- A computation that does what another one does, on an embedded state, halts for the same
reasons. -/
theorem HaltsOnly.embed {x : EStateM Halt τ α} {y : EStateM Halt σ α} {r : τ}
    {embedding : τ → σ} (hx : HaltsOnly excused x r) (hy : y s = embedded embedding (x r)) :
    HaltsOnly excused y s := by
  intro h t herror
  rw [hy] at herror
  cases hresult : x r with
  | ok a q => simp [hresult, embedded] at herror
  | error e q =>
      simp only [hresult, embedded, EStateM.Result.error.injEq] at herror
      exact herror.1 ▸ hx e q hresult

theorem haltsOnly_onSet {f : EStateM Fault (WorkingSet α) β} {w : WorkingSet α}
    (hf : ∀ e w', f w = .error e w' → excused (.fault e)) :
    HaltsOnly excused (onSet f) (w, s) := by
  intro h t herror
  rw [onSet] at herror
  cases hresult : f w with
  | ok b w' => simp [hresult] at herror
  | error e w' =>
      simp only [hresult, EStateM.Result.error.injEq] at herror
      exact herror.1 ▸ hf e w' hresult

/-- A loop whose steps keep an invariant halts early only where a step does, or for want of
fuel. -/
theorem haltsOnly_iterate {step : EStateM Halt σ Bool} (invariant : σ → Prop)
    (hkeeps : ∀ s t, invariant s → step s = .ok true t → invariant t)
    (hhalts : ∀ s, invariant s → HaltsOnly excused step s) (hfuel : excused .outOfFuel)
    (hs : invariant s) (fuel : Nat) : HaltsOnly excused (iterate step fuel) s := by
  induction fuel generalizing s with
  | zero => exact haltsOnly_throw hfuel
  | succ fuel ih =>
      refine (hhalts s hs).bind fun again t hstep => ?_
      cases again with
      | true => exact ih (hkeeps s t hs hstep)
      | false => exact haltsOnly_pure ()

/-- Given enough fuel, a computation ends, always in the same way. If it halts early, it has
an excuse. -/
def Ends (excused : Halt → Prop) (x : Nat → EStateM Halt σ α) (s : σ) : Prop :=
  ∃ bound r, (∀ fuel ≥ bound, x fuel s = r) ∧ ∀ h t, r = .error h t → excused h

theorem HaltsOnly.ends {x : EStateM Halt σ α} (hx : HaltsOnly excused x s) :
    Ends excused (fun _ => x) s :=
  ⟨0, x s, fun _ _ => rfl, hx⟩

theorem bind_of_ok {ε : Type} {x : EStateM ε σ α} {f : α → EStateM ε σ β} {a : α} {t : σ}
    (h : x s = .ok a t) : (x >>= f) s = f a t := by
  change EStateM.bind x f s = _
  rw [EStateM.bind, h]

theorem bind_of_error {x : EStateM Halt σ α} {f : α → EStateM Halt σ β} {e : Halt} {t : σ}
    (h : x s = .error e t) : (x >>= f) s = .error e t := by
  change EStateM.bind x f s = _
  rw [EStateM.bind, h]

theorem Ends.bind {x : Nat → EStateM Halt σ α} {f : Nat → α → EStateM Halt σ β}
    (hx : Ends excused x s)
    (hf : ∀ fuel a r, x fuel s = .ok a r → Ends excused (fun fuel => f fuel a) r) :
    Ends excused (fun fuel => x fuel >>= f fuel) s := by
  obtain ⟨bound, r, hr, hexcused⟩ := hx
  cases r with
  | ok a t =>
      obtain ⟨bound', r', hr', hexcused'⟩ := hf bound a t (hr bound le_rfl)
      refine ⟨max bound bound', r', fun fuel hfuel => ?_, hexcused'⟩
      exact (bind_of_ok (hr fuel (le_of_max_le_left hfuel))).trans
        (hr' fuel (le_of_max_le_right hfuel))
  | error e t =>
      refine ⟨bound, .error e t, fun fuel hfuel => bind_of_error (hr fuel hfuel), ?_⟩
      intro h r herror
      obtain ⟨rfl, rfl⟩ := EStateM.Result.error.inj herror
      exact hexcused e t rfl

theorem ends_modify_bind {f : σ → σ} {g : Nat → PUnit → EStateM Halt σ β}
    (hg : Ends excused (fun fuel => g fuel PUnit.unit) (f s)) :
    Ends excused (fun fuel => modify f >>= g fuel) s := hg

theorem Ends.onPart {part : σ → τ} {update : σ → τ → σ} {f : Nat → EStateM Halt τ β}
    (hf : Ends excused f (part s)) :
    Ends excused (fun fuel => onPart part update (f fuel)) s := by
  obtain ⟨bound, r, hr, hexcused⟩ := hf
  refine ⟨bound, PushRelabel.onPart part update (f bound) s, fun fuel hfuel => ?_, ?_⟩
  · dsimp only [PushRelabel.onPart]
    rw [hr fuel hfuel, hr bound le_rfl]
  · apply HaltsOnly.onPart
    intro h t herror
    exact hexcused h t ((hr bound le_rfl).symm.trans herror)

/-- A computation that does what another one does, on an embedded state, ends as well. -/
theorem Ends.embed {x : Nat → EStateM Halt τ α} {y : Nat → EStateM Halt σ α} {r : τ}
    {embedding : τ → σ} (hx : Ends excused x r)
    (hy : ∀ fuel, y fuel s = embedded embedding (x fuel r)) : Ends excused y s := by
  obtain ⟨bound, result, hresult, hexcused⟩ := hx
  have hhalts : HaltsOnly excused (x bound) r := fun h t herror =>
    hexcused h t ((hresult bound le_rfl).symm.trans herror)
  refine ⟨bound, y bound s, fun fuel hfuel => ?_, hhalts.embed (hy bound)⟩
  rw [hy, hy, hresult fuel hfuel, hresult bound le_rfl]

/-- A loop whose steps cannot go on forever ends, if its steps do not halt early without an
excuse. -/
theorem ends_iterate {step : EStateM Halt σ Bool} (invariant : σ → Prop)
    (hkeeps : ∀ s t, invariant s → step s = .ok true t → invariant t)
    (hhalts : ∀ s, invariant s → HaltsOnly excused step s) (hs : invariant s)
    (hends : Acc (fun t s => step s = .ok true t) s) : Ends excused (iterate step) s := by
  induction hends with
  | intro s _ ih =>
      cases hstep : step s with
      | error h t =>
          refine ⟨1, .error h t, fun fuel hfuel => ?_, fun h' t' herror => ?_⟩
          · obtain ⟨fuel, rfl⟩ := Nat.exists_eq_add_of_le' hfuel
            exact bind_of_error hstep
          · obtain ⟨rfl, rfl⟩ := EStateM.Result.error.inj herror
            exact hhalts s hs h t hstep
      | ok again t =>
          cases again with
          | false =>
              refine ⟨1, .ok () t, fun fuel hfuel => ?_, nofun⟩
              obtain ⟨fuel, rfl⟩ := Nat.exists_eq_add_of_le' hfuel
              exact bind_of_ok hstep
          | true =>
              obtain ⟨bound, r, hr, hexcused⟩ := ih t hstep (hkeeps s t hs hstep)
              refine ⟨bound + 1, r, fun fuel hfuel => ?_, hexcused⟩
              obtain ⟨fuel, rfl⟩ := Nat.exists_eq_add_of_le' (Nat.le_of_add_left_le hfuel)
              exact (bind_of_ok hstep).trans (hr fuel (Nat.le_of_add_le_add_right hfuel))

/-- A step that lowers a measure cannot be taken forever. -/
theorem acc_of_lt {μ : Type*} [Preorder μ] [WellFoundedLT μ] {step : EStateM Halt σ Bool}
    (invariant : σ → Prop) (measure : σ → μ)
    (hkeeps : ∀ s t, invariant s → step s = .ok true t → invariant t ∧ measure t < measure s)
    (hs : invariant s) : Acc (fun t s => step s = .ok true t) s := by
  induction hmeasure : measure s using WellFoundedLT.induction generalizing s with
  | _ m ih =>
      refine ⟨s, fun t hstep => ?_⟩
      obtain ⟨ht, hlt⟩ := hkeeps s t hs hstep
      exact ih (measure t) (hmeasure ▸ hlt) ht rfl

end Parts

namespace WorkingSet

variable {α σ : Type} {w : WorkingSet α} {s : σ} {batch : Nat}

/-- The slots of a set fit into memory, and the size of a batch is a word. -/
def Countable (capacity batch : Nat) : Prop :=
  Room.Holds Word.bytes capacity ∧ batch < Word.size

/-- A position may leave the words only if slots or batches are out of proportion. -/
def Overflows (capacity batch : Nat) (h : Halt) : Prop :=
  h = .fault .overflow ∧ ¬ Countable capacity batch

theorem add?_of_countable {capacity cursor : Nat} (h : Countable capacity batch)
    (hcapacity : cursor < capacity) (hcursor : cursor = 0 ∨ batch ≤ cursor) :
    cursor + batch < Word.size := by
  obtain ⟨hroom, hbatch⟩ := h
  simp only [Room.Holds, Word.bytes, Room.bytes] at hroom
  simp only [Word.size] at hbatch ⊢
  omega

theorem claim_eq_error {count : Nat} {w' : WorkingSet α} {e : Fault}
    (h : claim count w = .error e w') :
    e = .overflow ∧ w.cursor < w.size ∧ Word.size ≤ w.cursor + count := by
  unfold claim at h
  change (if w.cursor < w.size then _ else _ : EStateM Fault (WorkingSet α) _) _ = _ at h
  split at h
  next hlt =>
    cases hstop : Word.add? w.cursor count with
    | some stop =>
        rw [hstop] at h
        cases h
    | none =>
        rw [hstop] at h
        cases h
        refine ⟨rfl, hlt, Nat.le_of_not_lt fun hsize => ?_⟩
        rw [Word.add?, if_pos hsize] at hstop
        cases hstop
  next => cases h

variable {excused : Halt → Prop} {running : Bool}

/-- Each batch that is not empty moves the cursor on, so there is a claim for each element. -/
theorem haltsOnly_consumeFrom {visit : α → σ → σ} {fuel : Nat}
    (hoverflow : ∀ h, Overflows w.capacity batch h → excused h)
    (hrunning : running = true ∨ excused .interrupted)
    (hsize : w.size ≤ w.capacity) (hcursor : w.cursor = 0 ∨ batch ≤ w.cursor)
    (hfuel : excused .outOfFuel ∨ 1 ≤ batch ∧ w.size - w.cursor < fuel) :
    HaltsOnly excused (consumeFrom batch running visit fuel) (w, s) := by
  induction fuel generalizing w s with
  | zero =>
      exact haltsOnly_throw (hfuel.resolve_right fun hfuel => Nat.not_lt_zero _ hfuel.2)
  | succ fuel ih =>
      -- a claim fails only where the cursor leaves the words
      have hclaim : ∀ e w', claim batch w = .error e w' → excused (.fault e) := by
        intro e w' herror
        obtain ⟨rfl, hlt, hover⟩ := claim_eq_error herror
        refine hoverflow _ ⟨rfl, fun hcountable => ?_⟩
        exact hover.not_gt (add?_of_countable hcountable (hlt.trans_le hsize) hcursor)
      unfold consumeFrom
      refine (haltsOnly_onSet hclaim).bind fun range r hrange => ?_
      rcases r with ⟨w₁, s₁⟩
      obtain ⟨hclaimed, rfl⟩ := onSet_eq_ok_iff.mp hrange
      obtain ⟨hslots, hsize₁, ⟨rfl, -⟩ | ⟨rfl, hlt, hcursor₁⟩⟩ := claim_eq_ok hclaimed
      · exact haltsOnly_pure ()
      · have hcapacity : w₁.capacity = w.capacity := congrArg Array.size hslots
        refine (haltsOnly_checkRunning hrunning).bind fun _ r hchecked => ?_
        obtain ⟨-, rfl⟩ := checkRunning_eq_ok_iff.mp hchecked
        -- what was claimed lies in the slots, so it can be read
        have hread : ∀ e w', between w.cursor (min w.size (w.cursor + batch)) w₁ = .error e w' →
            excused (.fault e) := by
          intro e w' herror
          rw [between, if_pos ((min_le_left _ _).trans (hcapacity ▸ hsize))] at herror
          cases herror
        refine (haltsOnly_onSet hread).bind fun as r helements => ?_
        rcases r with ⟨w₂, s₂⟩
        obtain ⟨hbetween, rfl⟩ := onSet_eq_ok_iff.mp helements
        rw [← hsize₁] at hbetween
        obtain ⟨rfl, -⟩ := between_eq_ok hbetween
        refine haltsOnly_modify_bind ?_
        refine ih (hcapacity ▸ hoverflow) (by omega) (by omega) (hfuel.imp_right fun hfuel => ?_)
        exact ⟨hfuel.1, by omega⟩

theorem haltsOnly_consume {visit : α → σ → σ} {as : List α}
    (hoverflow : ∀ h, Overflows w.capacity batch h → excused h)
    (hrunning : running = true ∨ excused .interrupted) (hbatch : excused .outOfFuel ∨ 1 ≤ batch)
    (hlists : w.Lists as) (hroom : as.length ≤ w.capacity) :
    HaltsOnly excused (consume batch running visit) (w, s) := by
  unfold consume
  refine haltsOnly_get_bind ?_
  refine haltsOnly_consumeFrom hoverflow hrunning (hlists.size_eq ▸ hroom)
    (Or.inl hlists.cursor_eq) (hbatch.imp_right fun hbatch => ⟨hbatch, ?_⟩)
  exact Nat.lt_succ_of_le (Nat.sub_le _ _)

/-- There is room for a list in an empty set that has as many slots. -/
theorem pushAll_ne_error {as : List α} (hroom : as.length ≤ w.capacity) {e : Fault}
    {w' : WorkingSet α} : pushAll as w.reset ≠ .error e w' := by
  intro h
  unfold pushAll at h
  split at h
  · cases h
  · dsimp only at h
    rw [if_pos (by simpa [reset, capacity] using hroom)] at h
    cases h

end WorkingSet

end PushRelabel
