import Mathlib
import PushRelabel.Halt

/-! # Steps that succeed

What is known of a computation that ended well: each of its parts ended well, in the
order in which they ran. A loop that ended well ran its step until the step asked for
no other one, and a working set that was consumed had each of its elements visited
once, in order, whatever the size of the batches.
-/

namespace PushRelabel

section Parts

variable {ε σ τ α β : Type} {s t : σ}

theorem bind_eq_ok_iff {x : EStateM ε σ α} {f : α → EStateM ε σ β} {b : β} :
    (x >>= f) s = .ok b t ↔ ∃ a r, x s = .ok a r ∧ f a r = .ok b t := by
  change EStateM.bind x f s = .ok b t ↔ _
  rw [EStateM.bind]
  cases hx : x s with
  | ok a r => simp
  | error e r => simp

theorem pure_eq_ok_iff {a b : α} : (pure a : EStateM ε σ α) s = .ok b t ↔ a = b ∧ s = t := by
  change EStateM.Result.ok a s = .ok b t ↔ _
  simp

theorem modify_eq_ok_iff {f : σ → σ} {u : PUnit} :
    (modify f : EStateM ε σ PUnit) s = .ok u t ↔ f s = t := by
  change EStateM.Result.ok PUnit.unit (f s) = .ok u t ↔ _
  simp

theorem get_bind (f : σ → EStateM ε σ β) : ((get : EStateM ε σ σ) >>= f) s = f s s := rfl

theorem modify_bind (f : σ → σ) (g : PUnit → EStateM ε σ β) :
    ((modify f : EStateM ε σ PUnit) >>= g) s = g PUnit.unit (f s) := rfl

theorem throw_ne_ok {e : ε} {a : α} : (throw e : EStateM ε σ α) s ≠ .ok a t := by
  change EStateM.Result.error e s ≠ .ok a t
  simp

theorem onPart_eq_ok_iff {part : σ → τ} {update : σ → τ → σ} {f : EStateM Halt τ β} {b : β} :
    onPart part update f s = .ok b t ↔ ∃ r, f (part s) = .ok b r ∧ update s r = t := by
  rw [onPart]
  cases hf : f (part s) with
  | ok c r => simp
  | error e r => simp

theorem checkRunning_eq_ok_iff {running : Bool} {u : Unit} :
    (checkRunning running : EStateM Halt σ Unit) s = .ok u t ↔ running = true ∧ s = t := by
  unfold checkRunning
  cases running with
  | true => exact pure_eq_ok_iff.trans (by simp)
  | false =>
      simp only [Bool.false_eq_true, if_false, false_and, iff_false]
      exact throw_ne_ok

theorem onSet_eq_ok_iff {f : EStateM Fault (WorkingSet α) β} {w w' : WorkingSet α} {b : β} :
    onSet f (w, s) = .ok b (w', t) ↔ f w = .ok b w' ∧ s = t := by
  rw [onSet]
  cases hf : f w with
  | ok c r => simp [and_assoc]
  | error e r => simp

/-- How a computation ends, with its last state embedded into another type. -/
def embedded (embedding : τ → σ) : EStateM.Result ε τ α → EStateM.Result ε σ α
  | .ok a r => .ok a (embedding r)
  | .error e r => .error e (embedding r)

theorem embedded_eq_ok_iff {embedding : τ → σ} {result : EStateM.Result ε τ α} {a : α} :
    embedded embedding result = .ok a s ↔ ∃ r, result = .ok a r ∧ embedding r = s := by
  cases result <;> simp [embedded]

/-- A property that every step keeps holds at the end of a loop, and there the last
step asked for no other one. -/
theorem iterate_invariant {step : EStateM Halt σ Bool} (invariant : σ → Prop)
    (hstep : ∀ s t, invariant s → step s = .ok true t → invariant t) {fuel : Nat} {u : Unit}
    (hs : invariant s) (hrun : iterate step fuel s = .ok u t) :
    ∃ r, invariant r ∧ step r = .ok false t := by
  induction fuel generalizing s with
  | zero => exact absurd hrun throw_ne_ok
  | succ fuel ih =>
      obtain ⟨again, r, hfirst, hrest⟩ := bind_eq_ok_iff.mp hrun
      cases again with
      | true => exact ih (hstep s r hs hfirst) hrest
      | false =>
          obtain ⟨-, rfl⟩ := pure_eq_ok_iff.mp hrest
          exact ⟨s, hs, hfirst⟩

end Parts

namespace WorkingSet

variable {α σ : Type}

theorem toList_congr {w w' : WorkingSet α} (hslots : w'.slots = w.slots)
    (hsize : w'.size = w.size) : w'.toList = w.toList := by
  rw [toList, toList, hslots, hsize]

theorem claim_eq_ok {count : Nat} {w w' : WorkingSet α} {range : Option (Nat × Nat)}
    (h : claim count w = .ok range w') :
    w'.slots = w.slots ∧ w'.size = w.size ∧
      ((range = none ∧ w.size ≤ w.cursor) ∨
        (range = some (w.cursor, min w.size (w.cursor + count)) ∧ w.cursor < w.size ∧
          w'.cursor = w.cursor + count)) := by
  unfold claim at h
  rw [get_bind] at h
  obtain ⟨start, w₂, hadvance, h⟩ := bind_eq_ok_iff.mp h
  unfold advance at hadvance
  obtain ⟨rfl, rfl⟩ := EStateM.Result.ok.inj hadvance
  split at h
  next hlt =>
    cases hstop : Word.add? w.cursor count with
    | some stop =>
        rw [hstop] at h
        obtain ⟨rfl, rfl⟩ := pure_eq_ok_iff.mp h
        obtain ⟨hsize, rfl⟩ := Word.add?_eq_some_iff.mp hstop
        exact ⟨rfl, rfl, Or.inr ⟨rfl, hlt, Word.wrap_of_lt hsize⟩⟩
    | none =>
        rw [hstop] at h
        exact absurd h throw_ne_ok
  next hlt =>
    obtain ⟨rfl, rfl⟩ := pure_eq_ok_iff.mp h
    exact ⟨rfl, rfl, Or.inl ⟨rfl, Nat.le_of_not_lt hlt⟩⟩

theorem between_eq_ok {start stop : Nat} {w w' : WorkingSet α} {as : List α}
    (h : between start (min w.size stop) w = .ok as w') :
    w' = w ∧ as = (w.toList.take stop).drop start := by
  unfold between at h
  split at h
  · obtain ⟨rfl, rfl⟩ := EStateM.Result.ok.inj h
    rw [toList, List.take_take, Nat.min_comm]
    exact ⟨rfl, rfl⟩
  · simp at h

/-- Consuming a working set visits the elements from its cursor on. -/
theorem consumeFrom_eq_ok {batch : Nat} {running : Bool} {visit : α → σ → σ} {fuel : Nat}
    {w w' : WorkingSet α} {s t : σ} {u : Unit}
    (h : consumeFrom batch running visit fuel (w, s) = .ok u (w', t)) :
    w'.slots = w.slots ∧ w'.size = w.size ∧
      t = (w.toList.drop w.cursor).foldl (fun s a => visit a s) s := by
  induction fuel generalizing w s with
  | zero => exact absurd h throw_ne_ok
  | succ fuel ih =>
      unfold consumeFrom at h
      obtain ⟨range, ⟨w₁, s₁⟩, hclaim, h⟩ := bind_eq_ok_iff.mp h
      obtain ⟨hclaimed, rfl⟩ := onSet_eq_ok_iff.mp hclaim
      obtain ⟨hslots, hsize, ⟨rfl, hend⟩ | ⟨rfl, hlt, hcursor⟩⟩ := claim_eq_ok hclaimed
      · obtain ⟨-, heq⟩ := pure_eq_ok_iff.mp h
        obtain ⟨rfl, rfl⟩ := Prod.mk.inj heq
        have hdrop : w.toList.drop w.cursor = [] := by
          refine List.drop_of_length_le (le_trans ?_ hend)
          simp [toList]
        exact ⟨hslots, hsize, by rw [hdrop, List.foldl_nil]⟩
      · obtain ⟨_, ⟨w₂, s₂⟩, hrunning, h⟩ := bind_eq_ok_iff.mp h
        obtain ⟨-, heq⟩ := checkRunning_eq_ok_iff.mp hrunning
        obtain ⟨rfl, rfl⟩ := Prod.mk.inj heq
        obtain ⟨as, ⟨w₃, s₃⟩, hbetween, h⟩ := bind_eq_ok_iff.mp h
        obtain ⟨hread, rfl⟩ := onSet_eq_ok_iff.mp hbetween
        rw [← hsize] at hread
        obtain ⟨rfl, rfl⟩ := between_eq_ok hread
        obtain ⟨_, ⟨w₄, s₄⟩, hvisit, h⟩ := bind_eq_ok_iff.mp h
        obtain ⟨rfl, rfl⟩ := Prod.mk.inj (modify_eq_ok_iff.mp hvisit)
        obtain ⟨hslots', hsize', ht⟩ := ih h
        refine ⟨hslots'.trans hslots, hsize'.trans hsize, ?_⟩
        -- the batch is the front of what is left
        have hsplit : w.toList.drop w.cursor =
            (w.toList.take (w.cursor + batch)).drop w.cursor ++
              w.toList.drop (w.cursor + batch) := by
          rw [List.drop_take, Nat.add_sub_cancel_left, ← List.drop_drop]
          exact (List.take_append_drop batch _).symm
        rw [ht, hcursor, toList_congr hslots hsize, hsplit, List.foldl_append]

theorem consume_eq_ok {batch : Nat} {running : Bool} {visit : α → σ → σ}
    {w w' : WorkingSet α} {s t : σ} {u : Unit} (hcursor : w.cursor = 0)
    (h : consume batch running visit (w, s) = .ok u (w', t)) :
    w'.slots = w.slots ∧ w'.size = w.size ∧ t = w.toList.foldl (fun s a => visit a s) s := by
  unfold consume at h
  rw [get_bind] at h
  have hresult := consumeFrom_eq_ok h
  rwa [hcursor, List.drop_zero] at hresult

theorem toList_fill (slots : Array α) (start : Nat) (as : List α)
    (hroom : start + as.length ≤ slots.size) :
    (fill slots start as).toList.take (start + as.length) = slots.toList.take start ++ as := by
  induction as generalizing slots start with
  | nil => simp [fill]
  | cons a as ih =>
      rw [List.length_cons] at hroom
      have hstart : start < slots.size := by omega
      have hnext := ih (slots.setIfInBounds start a) (start + 1)
        (by rw [Array.size_setIfInBounds]; omega)
      rw [fill, List.length_cons, Nat.add_comm as.length 1, ← Nat.add_assoc, hnext,
        Array.toList_setIfInBounds, List.take_add_one, List.take_set_of_le (Nat.le_refl start)]
      simp [hstart]

theorem pushAll_eq_ok {as : List α} {w w' : WorkingSet α} {u : Unit}
    (h : pushAll as w = .ok u w') :
    w'.toList = w.toList ++ as ∧ w'.size = w.size + as.length ∧ w'.cursor = w.cursor ∧
      w'.capacity = w.capacity := by
  unfold pushAll at h
  split at h
  next hnil =>
    obtain ⟨-, rfl⟩ := EStateM.Result.ok.inj h
    simp [hnil]
  next hne =>
    dsimp only at h
    split at h
    next hroom =>
      obtain ⟨-, rfl⟩ := EStateM.Result.ok.inj h
      exact ⟨toList_fill w.slots w.size as hroom, rfl, rfl, size_fill _ _ _⟩
    next => simp at h

/-- A working set is about to hand out certain elements. -/
structure Lists (w : WorkingSet α) (as : List α) : Prop where
  toList_eq : w.toList = as
  size_eq : w.size = as.length
  cursor_eq : w.cursor = 0

theorem lists_of_pushAll {as : List α} {w w' : WorkingSet α} {u : Unit}
    (h : pushAll as w.reset = .ok u w') : w'.Lists as ∧ w'.capacity = w.capacity := by
  obtain ⟨hlist, hsize, hcursor, hcapacity⟩ := pushAll_eq_ok h
  rw [toList_reset, List.nil_append] at hlist
  exact ⟨⟨hlist, hsize.trans (Nat.zero_add _), hcursor⟩, hcapacity⟩

theorem lists_of_push {a : α} {w w' : WorkingSet α} {u : Unit} (h : push a w.reset = .ok u w') :
    w'.Lists [a] ∧ w'.capacity = w.capacity := by
  have hlist := toList_of_push h
  rw [toList_reset, List.nil_append] at hlist
  unfold push at h
  split at h
  · obtain ⟨-, rfl⟩ := EStateM.Result.ok.inj h
    exact ⟨⟨hlist, rfl, rfl⟩, by simp [capacity, reset]⟩
  · simp at h

theorem Lists.isEmpty_iff {as : List α} {w : WorkingSet α} (h : w.Lists as) :
    w.isEmpty = true ↔ as = [] := by
  rw [isEmpty, beq_iff_eq, h.size_eq, List.length_eq_zero_iff]

end WorkingSet

end PushRelabel
