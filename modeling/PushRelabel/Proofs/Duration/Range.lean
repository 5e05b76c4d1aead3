import PushRelabel.Proofs.Duration

/-! # Durations out of range

A text may amount to more seconds than a duration holds, at some unit in it or at its end. Then
reading ends with a fault, while it refuses other texts that it cannot read. It takes 16 characters,
blanks apart, to come to that.
-/

namespace PushRelabel

theorem Decimal.digitsFrom_lt (n : Nat) {ds : List Char}
    (hdigits : ∀ c ∈ ds, isDigit c = true) : digitsFrom n ds < (n + 1) * 10 ^ ds.length := by
  induction ds generalizing n with
  | nil => simp [digitsFrom]
  | cons c ds ih =>
      obtain ⟨hc, hds⟩ := List.forall_mem_cons.mp hdigits
      have hvalue : digitValue c ≤ 9 := by
        simp only [isDigit, decide_eq_true_eq, Char.le_def, UInt32.le_iff_toNat_le] at hc
        exact Nat.sub_le_sub_right hc.2 '0'.toNat
      calc digitsFrom n (c :: ds)
        _ = digitsFrom (10 * n + digitValue c) ds := rfl
        _ < (10 * n + digitValue c + 1) * 10 ^ ds.length := ih _ hds
        _ ≤ (10 * n + 10) * 10 ^ ds.length := Nat.mul_le_mul_right _ (by omega)
        _ = (n + 1) * 10 ^ (c :: ds).length := by
          rw [List.length_cons, pow_succ]
          ring

theorem Numeral.value_lt (n : Numeral) : n.value < 10 ^ n.digits.length := by
  simpa [Numeral.value] using Decimal.digitsFrom_lt 0 n.isDigit

namespace Duration

theorem TimeUnit.seconds_le_day (u : TimeUnit) : u.seconds ≤ day.seconds := by
  cases u <;> decide

/-! ## How long a text has to be -/

namespace Writing

theorem millis_cons (e : Entry) (w : Writing) :
    (w.cons e).millis = e.seconds * 1000 + w.millis := by
  simp only [millis, cons, List.map_cons, List.sum_cons]
  ring

/-- A text of `n + 1` characters amounts to less than `10 ^ n` days. -/
def Short (w : Writing) : Prop :=
  10 * w.millis + TimeUnit.day.seconds * 1000 ≤
    TimeUnit.day.seconds * 1000 * 10 ^ w.text.length

theorem short_of_last (last : Option Numeral) : Short ⟨[], last⟩ := by
  cases last with
  | none => simp [Short, millis, text]
  | some n =>
      have hvalue := n.value_lt
      have hmillis : millis ⟨[], some n⟩ = n.value := by simp [millis]
      have htext : text ⟨[], some n⟩ = n.digits := by simp [text]
      rw [Short, hmillis, htext, TimeUnit.seconds]
      omega

theorem Short.cons {w : Writing} (h : w.Short) (e : Entry) : (w.cons e).Short := by
  have hvalue : e.number.value + 1 ≤ 10 ^ e.number.digits.length := e.number.value_lt
  have hseconds : e.seconds ≤ e.number.value * TimeUnit.day.seconds :=
    Nat.mul_le_mul_left _ e.unit.seconds_le_day
  have hlength : (w.cons e).text.length = e.number.digits.length + 1 + w.text.length := by
    simp [Entry.text, Nat.add_assoc, Nat.add_comm 1]
  have hrest : 1 ≤ 10 ^ w.text.length := Nat.one_le_pow _ _ (by decide)
  unfold Short at h ⊢
  generalize TimeUnit.day.seconds = day at h hseconds ⊢
  calc 10 * (w.cons e).millis + day * 1000
    _ = 10 * (e.seconds * 1000) + (10 * w.millis + day * 1000) := by
      rw [millis_cons]
      ring
    _ ≤ 10 * (e.number.value * day * 1000) + day * 1000 * 10 ^ w.text.length :=
      Nat.add_le_add (Nat.mul_le_mul_left _ (Nat.mul_le_mul_right _ hseconds)) h
    _ = day * 1000 * (10 * e.number.value + 10 ^ w.text.length) := by ring
    _ ≤ day * 1000 * (10 * (e.number.value + 1) * 10 ^ w.text.length) := by
      refine Nat.mul_le_mul_left _ ?_
      nlinarith
    _ ≤ day * 1000 * (10 * 10 ^ e.number.digits.length * 10 ^ w.text.length) :=
      Nat.mul_le_mul_left _ (Nat.mul_le_mul_right _ (Nat.mul_le_mul_left _ hvalue))
    _ = day * 1000 * 10 ^ (w.cons e).text.length := by
      rw [hlength, pow_add, pow_succ]
      ring

theorem short (w : Writing) : w.Short := by
  obtain ⟨entries, last⟩ := w
  induction entries with
  | nil => exact short_of_last last
  | cons e entries ih => exact ih.cons e

end Writing

theorem Exceeds.length_le {cs : List Char} (h : Exceeds cs) : 16 ≤ cs.length := by
  obtain ⟨w, rest, rfl, -, -, hlarge⟩ := h
  by_contra hshort
  have hlength : w.text.length ≤ 15 := by
    rw [List.length_append] at hshort
    omega
  have hpow : 10 ^ w.text.length ≤ 10 ^ 15 := Nat.pow_le_pow_right (by decide) hlength
  have hmillis := w.short
  simp only [Writing.Short, TimeUnit.seconds] at hmillis
  simp only [Word.size] at hlarge
  omega

/-! ## How reading ends -/

/-- A text is read as the exact total of its numbers in their units, or it is refused because it is
no duration in writing, or what it starts with leaves the range of durations. -/
theorem outcome_of_read (cs : List Char) :
    match read cs with
    | .ok d => ¬ Exceeds (significant cs) ∧
        ∃ w : Writing, w.text = significant cs ∧ w.Words ∧ d.millis = w.millis
    | .error (.fault cause) =>
        cause = .overflow ∧ Exceeds (significant cs) ∧ 16 ≤ (significant cs).length
    | .error _ => ¬ Exceeds (significant cs) ∧
        (cs = [] ∨ ∀ w : Writing, w.text = significant cs → ¬ w.Words) := by
  -- Only a fault leaves the range, so the other two outcomes are those within it.
  have hwithin : (∀ cause, read cs ≠ .error (.fault cause)) → ¬ Exceeds (significant cs) :=
    fun hsound h => hsound .overflow (read_of_exceeds h)
  split
  next d hread =>
    have hrange := hwithin fun cause h => nomatch hread.symm.trans h
    obtain ⟨hne, w, htext, hwords⟩ := exists_writing_of_ok hread
    have hmillis := add_eq_ok_iff.mp ((read_text hne htext hwords).symm.trans hread)
    exact ⟨hrange, w, htext, hwords, by rwa [zero_millis, Nat.zero_add] at hmillis⟩
  next cause hread =>
    have hexceeds := fault_iff_exceeds.mp ⟨cause, hread⟩
    have hcause := hread.symm.trans (read_of_exceeds hexceeds)
    exact ⟨ReadError.fault.inj (Except.error.inj hcause), hexceeds, hexceeds.length_le⟩
  next e hproper hread =>
    have hrange := hwithin fun cause h =>
      hproper cause (Except.error.inj (hread.symm.trans h))
    refine ⟨hrange, or_iff_not_imp_left.mpr fun hne w htext hwords => ?_⟩
    have hadd := (read_text hne htext hwords).symm.trans hread
    exact hproper .overflow (add_eq_error_iff.mp hadd).1

/-- As short as a text can be that leaves the range. -/
def tooManyDays : List Char := "213503982334602d".toList

/-- A product that leaves the range, and a total that does with its milliseconds. -/
theorem read_tooManyDays : read tooManyDays = .error (.fault .overflow) ∧
    read "18446744073709551615s1000".toList = .error (.fault .overflow) :=
  ⟨by cbv, by cbv⟩

end Duration

end PushRelabel
