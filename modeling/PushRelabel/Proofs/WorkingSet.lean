import PushRelabel.Proofs.Halting

/-! # Consuming a working set

Consumers call in any order, and each call moves the cursor. As long as the cursor does not leave
the words, each position is handed out once, in order, and once a call has failed no other one
succeeds until the cursor is set back. A cursor that wraps around forgets that the set was consumed.
-/

namespace PushRelabel

namespace WorkingSet

variable {α : Type}

/-! ## Filling a set -/

/-- A call that appends. -/
inductive Addition (α : Type) where
  | single (a : α)
  | batch (as : List α)

namespace Addition

def elements : Addition α → List α
  | single a => [a]
  | batch as => as

def run : Addition α → EStateM Fault (WorkingSet α) Unit
  | single a => push a
  | batch as => pushAll as

end Addition

/-- A set after some elements were appended to it. -/
structure Grows (w : WorkingSet α) (as : List α) (w' : WorkingSet α) : Prop where
  toList_eq : w'.toList = w.toList ++ as
  size_eq : w'.size = w.size + as.length
  cursor_eq : w'.cursor = w.cursor
  capacity_eq : w'.capacity = w.capacity

theorem Grows.trans {w w' w'' : WorkingSet α} {as bs : List α} (h : w.Grows as w')
    (h' : w'.Grows bs w'') : w.Grows (as ++ bs) w'' where
  toList_eq := by rw [h'.toList_eq, h.toList_eq, List.append_assoc]
  size_eq := by rw [h'.size_eq, h.size_eq, List.length_append, Nat.add_assoc]
  cursor_eq := h'.cursor_eq.trans h.cursor_eq
  capacity_eq := h'.capacity_eq.trans h.capacity_eq

theorem grows_nil (w : WorkingSet α) : w.Grows [] w := ⟨by simp, rfl, rfl, rfl⟩

theorem Addition.run_eq_ok {w : WorkingSet α} (addition : Addition α)
    (hroom : w.size + addition.elements.length ≤ w.capacity) :
    ∃ w', addition.run w = .ok () w' ∧ w.Grows addition.elements w' := by
  cases addition with
  | single a =>
      have hpush := push_of_lt (a := a) (w := w) hroom
      exact ⟨_, hpush, toList_of_push hpush, rfl, rfl, Array.size_set hroom⟩
  | batch as =>
      have hpush : ∃ w', pushAll as w = .ok () w' := by
        unfold pushAll
        split
        · exact ⟨_, rfl⟩
        · exact ⟨_, if_pos hroom⟩
      obtain ⟨w', hpush⟩ := hpush
      obtain ⟨hlist, hsize, hcursor, hcapacity⟩ := pushAll_eq_ok hpush
      exact ⟨w', hpush, hlist, hsize, hcursor, hcapacity⟩

/-- Whatever fits into a set can be appended, in parts of any sizes. -/
theorem forM_run_eq_ok {w : WorkingSet α} {additions : List (Addition α)}
    (hroom : w.size + (additions.flatMap Addition.elements).length ≤ w.capacity) :
    ∃ w', additions.forM Addition.run w = .ok () w' ∧
      w.Grows (additions.flatMap Addition.elements) w' := by
  induction additions generalizing w with
  | nil => exact ⟨w, rfl, grows_nil w⟩
  | cons addition additions ih =>
      rw [List.flatMap_cons, List.length_append] at hroom
      obtain ⟨w₁, hrun, hgrows⟩ := addition.run_eq_ok (w := w) (by omega)
      obtain ⟨w₂, hrest, hgrows'⟩ := ih (w := w₁) (by
        rw [hgrows.size_eq, hgrows.capacity_eq]
        omega)
      exact ⟨w₂, (bind_of_ok hrun).trans hrest, hgrows.trans hgrows'⟩

/-! ## Calls of consumers -/

/-- A call that consumes. -/
inductive Call where
  | pop
  | claim (count : Nat)
  | advance (count : Nat)

/-- What a call gives: an element with its position, a range of positions, or so many positions
from some one on as belong to the caller if they are in the set. -/
inductive Reply (α : Type) where
  | element (position : Nat) (a : Option α)
  | range (positions : Option (Nat × Nat))
  | owned (start count : Nat)

namespace Reply

/-- The positions that are handed out by a set of some size. -/
def positions (size : Nat) : Reply α → List Nat
  | element position (some _) => [position]
  | range (some (start, stop)) => List.range' start (stop - start)
  | owned start count => List.range' start (min size (start + count) - start)
  | _ => []

def Failed : Reply α → Prop
  | element _ none => True
  | range none => True
  | _ => False

def Succeeded : Reply α → Prop
  | element _ (some _) => True
  | range (some _) => True
  | _ => False

end Reply

namespace Call

/-- By how much a call moves the cursor. -/
def size : Call → Nat
  | pop => 1
  | claim count => count
  | advance count => count

def run : Call → EStateM Fault (WorkingSet α) (Reply α)
  | pop => do
      let position := (← get).cursor
      return .element position (← WorkingSet.pop)
  | claim count => return .range (← WorkingSet.claim count)
  | advance count => return .owned (← WorkingSet.advance count) count

end Call

/-- Answers calls in the order in which they move the cursor. Nothing else that a call looks at
changes as long as nothing is appended. -/
def serve : List Call → EStateM Fault (WorkingSet α) (List (Reply α))
  | [] => return []
  | call :: calls => do
      let reply ← call.run
      return reply :: (← serve calls)

/-! ## A single call -/

/-- The set with its cursor further on. -/
def moved (w : WorkingSet α) (count : Nat) : WorkingSet α := { w with cursor := w.cursor + count }

@[simp] theorem cursor_moved (w : WorkingSet α) (count : Nat) :
    (w.moved count).cursor = w.cursor + count := rfl

theorem moved_moved (w : WorkingSet α) (m n : Nat) : (w.moved m).moved n = w.moved (m + n) := by
  simp [moved, Nat.add_assoc]

theorem length_toList {w : WorkingSet α} (hroom : w.size ≤ w.capacity) :
    w.toList.length = w.size := by
  rw [toList, List.length_take, Array.length_toList]
  exact min_eq_left hroom

/-- What a call gives, read off the set. -/
def Call.reply (w : WorkingSet α) : Call → Reply α
  | pop => .element w.cursor w.toList[w.cursor]?
  | claim count =>
      .range (if w.cursor < w.size then some (w.cursor, min w.size (w.cursor + count)) else none)
  | advance count => .owned w.cursor count

section Single

variable {w : WorkingSet α}

theorem advance_eq {count : Nat} (hfit : w.cursor + count < Word.size) :
    advance count w = .ok w.cursor (w.moved count) := by
  rw [advance, Word.wrap_of_lt hfit, moved]

theorem claim_eq {count : Nat} (hfit : w.cursor + count < Word.size) :
    claim count w = .ok
      (if w.cursor < w.size then some (w.cursor, min w.size (w.cursor + count)) else none)
      (w.moved count) := by
  unfold claim
  rw [get_bind, bind_of_ok (advance_eq hfit)]
  split
  · rw [Word.add?, if_pos hfit]
    rfl
  · rfl

theorem read_eq (hroom : w.size ≤ w.capacity) {position : Nat}
    (hposition : position < w.toList.length) :
    read position w = .ok w.toList[position] w := by
  rw [length_toList hroom] at hposition
  unfold read
  have hslot : position < w.slots.size := hposition.trans_le hroom
  rw [if_neg (Nat.not_le.mpr hposition), dif_pos hslot]
  simp [toList]

theorem pop_eq (hroom : w.size ≤ w.capacity) (hfit : w.cursor + 1 < Word.size) :
    pop w = .ok w.toList[w.cursor]? (w.moved 1) := by
  unfold pop
  rw [bind_of_ok (advance_eq hfit), get_bind]
  split
  next hlt =>
    have hposition : w.cursor < w.toList.length := (length_toList hroom).symm ▸ hlt
    rw [List.getElem?_eq_getElem hposition]
    exact bind_of_ok (read_eq (w := w.moved 1) hroom hposition)
  next hge =>
    have hnone : w.toList[w.cursor]? = none :=
      List.getElem?_eq_none ((length_toList hroom).trans_le (Nat.le_of_not_lt hge))
    rw [hnone]
    rfl

theorem Call.run_eq (hroom : w.size ≤ w.capacity) {call : Call}
    (hfit : w.cursor + call.size < Word.size) :
    call.run w = .ok (call.reply w) (w.moved call.size) := by
  cases call with
  | pop => exact bind_of_ok (pop_eq hroom hfit)
  | claim count => exact bind_of_ok (claim_eq hfit)
  | advance count => exact bind_of_ok (advance_eq hfit)

/-- A call hands out the positions over which it moves the cursor, as far as they are in the set. -/
theorem Call.positions_reply (hroom : w.size ≤ w.capacity) (call : Call) :
    (call.reply w).positions w.size =
      List.range' w.cursor (min w.size (w.cursor + call.size) - w.cursor) := by
  have hlength := length_toList hroom
  cases call with
  | pop =>
      by_cases hlt : w.cursor < w.size
      · have hone : min w.size (w.cursor + 1) - w.cursor = 1 := by omega
        rw [size, hone]
        simp [reply, Reply.positions, hlength, hlt]
      · have hnone : min w.size (w.cursor + 1) - w.cursor = 0 := by omega
        simp [reply, size, Reply.positions, hlength, hlt, hnone]
  | claim count =>
      by_cases hlt : w.cursor < w.size
      · simp [reply, size, Reply.positions, hlt]
      · have hnone : min w.size (w.cursor + count) - w.cursor = 0 := by omega
        simp [reply, size, Reply.positions, hlt, hnone]
  | advance count => rfl

theorem Call.size_le_of_failed (hroom : w.size ≤ w.capacity) {call : Call}
    (h : (call.reply w).Failed) : w.size ≤ w.cursor := by
  have hlength := length_toList hroom
  by_contra hlt
  rw [Nat.not_le] at hlt
  cases call <;> simp [reply, Reply.Failed, hlength, hlt] at h

theorem Call.not_succeeded (hroom : w.size ≤ w.capacity) (hend : w.size ≤ w.cursor) (call : Call) :
    ¬ (call.reply w).Succeeded := by
  have hlength := length_toList hroom
  cases call <;> simp [reply, Reply.Succeeded, hlength, hend]

end Single

/-! ## Any sequence of calls -/

def Call.total (calls : List Call) : Nat := (calls.map Call.size).sum

@[simp] theorem Call.total_nil : total [] = 0 := rfl

@[simp] theorem Call.total_cons (call : Call) (calls : List Call) :
    total (call :: calls) = call.size + total calls := by
  simp [total]

/-- What calls give, read off the set. -/
def replies (w : WorkingSet α) : List Call → List (Reply α)
  | [] => []
  | call :: calls => call.reply w :: replies (w.moved call.size) calls

/-- The positions that are handed out by a set of some size, in the order of the calls. -/
def handedOut (size : Nat) (replies : List (Reply α)) : List Nat :=
  replies.flatMap (Reply.positions size)

section Calls

variable {w : WorkingSet α} {calls : List Call}

theorem serve_eq (hroom : w.size ≤ w.capacity) (hfit : w.cursor + Call.total calls < Word.size) :
    serve calls w = .ok (replies w calls) (w.moved (Call.total calls)) := by
  induction calls generalizing w with
  | nil => rfl
  | cons call calls ih =>
      rw [Call.total_cons] at hfit ⊢
      have hrest := ih (w := w.moved call.size) hroom (by rw [cursor_moved]; omega)
      rw [moved_moved] at hrest
      exact (bind_of_ok (Call.run_eq hroom (by omega))).trans (bind_of_ok hrest)

/-- The positions over which the cursor moves are handed out one after the other. -/
theorem handedOut_replies (hroom : w.size ≤ w.capacity) : handedOut w.size (replies w calls) =
    List.range' w.cursor (min w.size (w.cursor + Call.total calls) - w.cursor) := by
  induction calls generalizing w with
  | nil => simp [handedOut, replies]
  | cons call calls ih =>
      have hrest : handedOut w.size (replies (w.moved call.size) calls) =
          List.range' (w.cursor + call.size)
            (min w.size (w.cursor + call.size + Call.total calls) - (w.cursor + call.size)) :=
        ih (w := w.moved call.size) hroom
      rw [replies, handedOut, List.flatMap_cons, ← handedOut, call.positions_reply hroom, hrest,
        Call.total_cons, ← Nat.add_assoc]
      -- Past the end nothing is handed out any more; before it the positions go on without a gap.
      rcases Nat.le_total w.size (w.cursor + call.size) with hend | hinside
      · have hnone : min w.size (w.cursor + call.size + Call.total calls) -
            (w.cursor + call.size) = 0 := by omega
        rw [hnone, List.range'_zero, List.append_nil, min_eq_left hend,
          min_eq_left (Nat.le_add_right_of_le hend)]
      · rw [min_eq_right hinside, Nat.add_sub_cancel_left, List.range'_append_1]
        congr 1
        omega

theorem element_of_mem_replies {position : Nat} {a : α}
    (h : .element position (some a) ∈ replies w calls) : w.toList[position]? = some a := by
  induction calls generalizing w with
  | nil => cases h
  | cons call calls ih =>
      rcases List.mem_cons.mp h with hreply | hrest
      · cases call with
        | pop =>
            obtain ⟨rfl, ha⟩ := Reply.element.inj hreply
            exact ha.symm
        | claim count => cases hreply
        | advance count => cases hreply
      · exact ih (w := w.moved call.size) hrest

/-- The cursor is at the end when a call fails, and does not come back. -/
theorem size_le_of_failed (hroom : w.size ≤ w.capacity) {reply : Reply α}
    (hmem : reply ∈ replies w calls) (hfailed : reply.Failed) :
    w.size ≤ w.cursor + Call.total calls := by
  induction calls generalizing w with
  | nil => cases hmem
  | cons call calls ih =>
      rw [Call.total_cons]
      rcases List.mem_cons.mp hmem with rfl | hrest
      · exact Nat.le_add_right_of_le (Call.size_le_of_failed hroom hfailed)
      · rw [← Nat.add_assoc]
        exact ih (w := w.moved call.size) hroom hrest

theorem not_succeeded_of_end (hroom : w.size ≤ w.capacity) (hend : w.size ≤ w.cursor) :
    ∀ reply ∈ replies w calls, ¬ reply.Succeeded := by
  induction calls generalizing w with
  | nil => exact nofun
  | cons call calls ih =>
      intro reply hreply
      rcases List.mem_cons.mp hreply with rfl | hrest
      · exact call.not_succeeded hroom hend
      · exact ih (w := w.moved call.size) hroom (Nat.le_add_right_of_le hend) reply hrest

theorem pairwise_replies (hroom : w.size ≤ w.capacity) : (replies w calls).Pairwise
    fun earlier later => earlier.Failed → ¬ later.Succeeded := by
  induction calls generalizing w with
  | nil => exact List.Pairwise.nil
  | cons call calls ih =>
      refine List.pairwise_cons.mpr ⟨fun later hlater hfailed => ?_,
        ih (w := w.moved call.size) hroom⟩
      have hend : w.size ≤ w.cursor := Call.size_le_of_failed hroom hfailed
      exact not_succeeded_of_end (w := w.moved call.size) hroom (Nat.le_add_right_of_le hend)
        later hlater

end Calls

/-! ## Consuming once -/

/-- Of some elements, calls hand out what they should: positions one after the other, with the
elements at them, and all of them if a call fails. -/
structure HandsOut (as : List α) (replies : List (Reply α)) : Prop where
  increasing : (handedOut as.length replies).Pairwise (· < ·)
  inside : ∀ position ∈ handedOut as.length replies, position < as.length
  elements : ∀ position a, .element position (some a) ∈ replies → as[position]? = some a
  complete : (∃ reply ∈ replies, reply.Failed) →
    handedOut as.length replies = List.range as.length

theorem handsOut_replies {w : WorkingSet α} {calls : List Call} (hroom : w.size ≤ w.capacity)
    (hcursor : w.cursor = 0) : HandsOut w.toList (replies w calls) := by
  have hpositions : handedOut w.size (replies w calls) =
      List.range (min w.size (Call.total calls)) := by
    rw [handedOut_replies hroom, hcursor, Nat.zero_add, Nat.sub_zero, List.range_eq_range']
  constructor
  · rw [length_toList hroom, hpositions]
    exact List.pairwise_lt_range
  · intro position hposition
    rw [length_toList hroom, hpositions, List.mem_range] at hposition
    rw [length_toList hroom]
    exact lt_min_iff.mp hposition |>.1
  · exact fun position a => element_of_mem_replies
  · rintro ⟨reply, hreply, hfailed⟩
    have hend := size_le_of_failed hroom hreply hfailed
    rw [hcursor, Nat.zero_add] at hend
    rw [length_toList hroom, hpositions, min_eq_left hend]

/-- A set that was filled in parts of any sizes is consumed once, whatever the calls and their
order. Setting the cursor back restores the set, so it can be consumed in the same way again. -/
theorem consumed_once (w : WorkingSet α) (additions : List (Addition α))
    (hroom : (additions.flatMap Addition.elements).length ≤ w.capacity) :
    ∃ filled, additions.forM Addition.run w.reset = .ok () filled ∧
      ∀ calls, Call.total calls < Word.size → ∃ replies after,
        serve calls filled = .ok replies after ∧
        HandsOut (additions.flatMap Addition.elements) replies ∧
        (∀ position (h : position < (additions.flatMap Addition.elements).length),
          read position after = .ok (additions.flatMap Addition.elements)[position] after) ∧
        after.rewind = filled := by
  have hreset : w.reset.size + (additions.flatMap Addition.elements).length ≤ w.reset.capacity := by
    simpa [reset, capacity] using hroom
  obtain ⟨filled, hrun, hgrows⟩ := forM_run_eq_ok hreset
  have hlist : filled.toList = additions.flatMap Addition.elements := by
    rw [hgrows.toList_eq, toList_reset, List.nil_append]
  have hcursor : filled.cursor = 0 := hgrows.cursor_eq
  have hfilled : filled.size ≤ filled.capacity := by
    rwa [hgrows.size_eq, hgrows.capacity_eq]
  refine ⟨filled, hrun, fun calls hfit => ⟨replies filled calls, filled.moved (Call.total calls),
    serve_eq hfilled (by rwa [hcursor, Nat.zero_add]), ?_, ?_, ?_⟩⟩
  · exact hlist ▸ handsOut_replies hfilled hcursor
  · rw [← hlist]
    exact fun position => read_eq (w := filled.moved _) hfilled
  · rw [rewind, moved, ← hcursor]

/-- A claim of no positions, some positions taken without a claim, and a batch cut at the end. -/
theorem consumed_once_interleaved : ∃ filled,
    [.single 4, .batch [3, 2], .batch [], .batch [9, 8, 7]].forM Addition.run
      (ofCapacity 6 0) = .ok () filled ∧
    ∃ after, serve [.claim 2, .pop, .claim 0, .advance 1, .claim 5, .pop] filled =
      .ok [.range (some (0, 2)), .element 2 (some 2), .range (some (3, 3)), .owned 3 1,
        .range (some (4, 6)), .element 9 none] after ∧
    HandsOut [4, 3, 2, 9, 8, 7] [.range (some (0, 2)), .element 2 (some 2), .range (some (3, 3)),
      .owned 3 1, .range (some (4, 6)), .element 9 none] ∧
    after.rewind = filled := by
  obtain ⟨filled, hfilled, hconsumed⟩ := consumed_once (ofCapacity 6 0)
    [.single 4, .batch [3, 2], .batch [], .batch [9, 8, 7]] (by decide)
  obtain ⟨_, rfl⟩ := EStateM.Result.ok.inj hfilled
  obtain ⟨replies, after, hserve, hhands, -, hrewind⟩ := hconsumed
    [.claim 2, .pop, .claim 0, .advance 1, .claim 5, .pop] (by decide)
  obtain ⟨rfl, rfl⟩ := EStateM.Result.ok.inj hserve
  exact ⟨_, rfl, _, rfl, hhands, hrewind⟩

/-! ## Failures -/

/-- As long as the cursor does not leave the words no call overflows, no position is handed out
twice, and once a call has failed none succeeds. -/
theorem failures_last (w : WorkingSet α) (hroom : w.size ≤ w.capacity) (calls : List Call)
    (hfit : w.cursor + Call.total calls < Word.size) :
    ∃ replies after, serve calls w = .ok replies after ∧
      (handedOut w.size replies).Nodup ∧
      replies.Pairwise fun earlier later => earlier.Failed → ¬ later.Succeeded := by
  refine ⟨replies w calls, _, serve_eq hroom hfit, ?_, pairwise_replies hroom⟩
  rw [handedOut_replies hroom]
  exact List.nodup_range'

theorem failures_last_large_batch :
    ∃ after, serve [.pop, .claim 4, .claim (2 ^ 64 - 16), .pop] ⟨#[7, 8], 2, 0⟩ =
      .ok [.element 0 (some 7), .range (some (1, 2)), .range none, .element (2 ^ 64 - 11) none]
        after ∧
    (handedOut 2 [.element 0 (some 7), .range (some (1, 2)), .range none,
      .element (2 ^ 64 - 11) none]).Nodup := by
  obtain ⟨replies, after, hserve, hnodup, -⟩ := failures_last ⟨#[7, 8], 2, 0⟩ (by decide)
    [.pop, .claim 4, .claim (2 ^ 64 - 16), .pop] (by decide)
  obtain ⟨rfl, rfl⟩ := EStateM.Result.ok.inj hserve
  exact ⟨_, rfl, hnodup⟩

/-- Claims that move the cursor once around the words hand out what was consumed again, and a claim
that would end beyond the words fails altogether. -/
theorem failure_forgotten :
    (∃ after, serve [.claim (2 ^ 63), .claim (2 ^ 63), .claim (2 ^ 63)] ⟨#[7], 1, 0⟩ =
      .ok [.range (some (0, 1)), .range none, .range (some (0, 1))] after) ∧
    ∃ after, serve [.pop, .claim (2 ^ 64 - 1)] ⟨#[7, 8], 2, 0⟩ = .error .overflow after :=
  ⟨⟨_, rfl⟩, ⟨_, rfl⟩⟩

end WorkingSet

end PushRelabel
