import Mathlib
import PushRelabel.Duration

/-! # How durations are written

Without its blanks a duration is a sequence of numbers, each with the letter of its unit, and
perhaps a last number that has none. Reading accepts exactly the texts of this form, as long as the
total of what was read stays in the range of durations.
-/

namespace PushRelabel

/-! ## Numerals -/

/-- A number in writing: at least one digit. -/
structure Numeral where
  digits : List Char
  ne_nil : digits ≠ []
  isDigit : ∀ c ∈ digits, Decimal.isDigit c = true

def Numeral.value (n : Numeral) : Nat := Decimal.digitsFrom 0 n.digits

def Numeral.IsWord (n : Numeral) : Prop := n.value < Word.size

instance (n : Numeral) : Decidable n.IsWord := inferInstanceAs (Decidable (_ < _))

namespace Decimal

theorem le_digitsFrom (n : Nat) (ds : List Char) : n ≤ digitsFrom n ds := by
  induction ds generalizing n with
  | nil => exact Nat.le_refl n
  | cons c ds ih =>
      calc n ≤ 10 * n + digitValue c := by omega
        _ ≤ digitsFrom n (c :: ds) := ih _

theorem readDigits_eq {n : Nat} (hn : n < Word.size) {ds : List Char}
    (hdigits : ∀ c ∈ ds, isDigit c = true) : readDigits n ds =
      if digitsFrom n ds < Word.size then .ok (digitsFrom n ds) else .error .tooLarge := by
  induction ds generalizing n with
  | nil => exact (if_pos hn).symm
  | cons c ds ih =>
      obtain ⟨hc, hds⟩ := List.forall_mem_cons.mp hdigits
      rw [readDigits, if_pos hc]
      split
      next hfit => exact ih hfit hds
      next hlarge =>
        have hge : Word.size ≤ digitsFrom n (c :: ds) :=
          Nat.le_trans (Nat.le_of_not_lt hlarge) (le_digitsFrom _ ds)
        rw [if_neg (Nat.not_lt.mpr hge)]

theorem readWord_eq (n : Numeral) :
    readWord n.digits = if n.IsWord then .ok n.value else .error .tooLarge := by
  obtain ⟨digits, hne, hdigits⟩ := n
  have hread : readWord digits = readDigits 0 digits := by
    have hplus : ∀ cs, digits ≠ '+' :: cs := by
      rintro cs rfl
      exact absurd (hdigits '+' List.mem_cons_self) (by decide)
    unfold readWord
    split
    next => exact absurd rfl hne
    next => exact absurd rfl (hplus [])
    next cs _ => exact absurd rfl (hplus cs)
    next => rfl
  exact hread.trans (readDigits_eq (by decide) hdigits)

end Decimal

namespace Duration

/-! ## The form of durations -/

inductive TimeUnit where
  | second
  | minute
  | hour
  | day

namespace TimeUnit

def letter : TimeUnit → Char
  | second => 's'
  | minute => 'm'
  | hour => 'h'
  | day => 'd'

def seconds : TimeUnit → Nat
  | second => 1
  | minute => 60
  | hour => 60 * 60
  | day => 24 * 60 * 60

theorem not_isDigit_letter (u : TimeUnit) : Decimal.isDigit u.letter = false := by
  cases u <;> decide

theorem not_isBlank_letter (u : TimeUnit) : Text.isBlank u.letter = false := by
  cases u <;> decide

theorem unitSeconds_letter (u : TimeUnit) : unitSeconds u.letter = some u.seconds := by
  cases u <;> rfl

theorem letter_of_unitSeconds {c : Char} {seconds : Nat} (h : unitSeconds c = some seconds) :
    ∃ u : TimeUnit, u.letter = c := by
  unfold unitSeconds at h
  split at h
  · exact ⟨second, rfl⟩
  · exact ⟨minute, rfl⟩
  · exact ⟨hour, rfl⟩
  · exact ⟨day, rfl⟩
  · cases h

end TimeUnit

/-- A number with its unit. -/
structure Entry where
  number : Numeral
  unit : TimeUnit

namespace Entry

def text (e : Entry) : List Char := e.number.digits ++ [e.unit.letter]

def seconds (e : Entry) : Nat := e.number.value * e.unit.seconds

end Entry

/-- A duration in writing. The last number, if there is one without a unit, counts milliseconds. -/
structure Writing where
  entries : List Entry
  last : Option Numeral

namespace Writing

def text (w : Writing) : List Char :=
  w.entries.flatMap Entry.text ++ w.last.elim [] Numeral.digits

def millis (w : Writing) : Nat :=
  (w.entries.map Entry.seconds).sum * 1000 + w.last.elim 0 Numeral.value

/-- All numbers are words. -/
def Words (w : Writing) : Prop :=
  (∀ e ∈ w.entries, e.number.IsWord) ∧ ∀ n ∈ w.last, n.IsWord

def empty : Writing := ⟨[], none⟩

def cons (e : Entry) (w : Writing) : Writing := { w with entries := e :: w.entries }

@[simp] theorem text_empty : empty.text = [] := rfl

@[simp] theorem words_empty : empty.Words := by simp [empty, Words]

@[simp] theorem text_cons (e : Entry) (w : Writing) : (w.cons e).text = e.text ++ w.text := by
  simp [cons, text]

@[simp] theorem words_cons_iff {e : Entry} {w : Writing} :
    (w.cons e).Words ↔ e.number.IsWord ∧ w.Words := by
  simp [cons, Words, and_assoc]

end Writing

/-- A text without its blanks. -/
def significant (cs : List Char) : List Char := cs.filter fun c => ¬ Text.isBlank c

/-- What a text starts with, up to a unit or to the end, amounts to more seconds than a duration
holds. If the product of a number with its unit does, this total does as well. -/
def Exceeds (cs : List Char) : Prop :=
  ∃ (w : Writing) (rest : List Char), cs = w.text ++ rest ∧ (w.last.isSome → rest = []) ∧
    w.Words ∧ Word.size ≤ w.millis / 1000

/-! ## Reading what is written -/

theorem add_eq_ok_iff {d d' : Duration} {millis : Nat} :
    d.add millis = .ok d' ↔ d'.millis = d.millis + millis := by
  obtain ⟨total, hrange⟩ := d'
  unfold add
  split
  next => simp [eq_comm]
  next hlarge =>
    simp only [reduceCtorEq, false_iff]
    rintro rfl
    exact hlarge hrange

theorem add_eq_error_iff {d : Duration} {millis : Nat} {e : ReadError} :
    d.add millis = .error e ↔
      e = .fault .overflow ∧ Word.size ≤ (d.millis + millis) / 1000 := by
  unfold add
  split
  next hrange => simp [hrange]
  next hlarge => simp [Nat.le_of_not_lt hlarge, eq_comm]

theorem add_zero (d : Duration) : d.add 0 = .ok d := add_eq_ok_iff.mpr rfl

theorem add_bind_add (d : Duration) (m n : Nat) : (d.add m >>= (·.add n)) = d.add (m + n) := by
  cases hm : d.add m with
  | ok d' =>
      have hd' := add_eq_ok_iff.mp hm
      change d'.add n = _
      simp only [add, hd', Nat.add_assoc]
  | error e =>
      obtain ⟨rfl, hlarge⟩ := add_eq_error_iff.mp hm
      exact (add_eq_error_iff.mpr ⟨rfl, by omega⟩).symm

theorem readNumber_eq {n : Numeral} (hword : n.IsWord) : readNumber n.digits = .ok n.value := by
  rw [readNumber, Decimal.readWord_eq, if_pos hword]

theorem addUnits_eq (d : Duration) {e : Entry} (hword : e.number.IsWord) :
    d.addUnits e.number.digits e.unit.letter = d.add (e.seconds * 1000) := by
  simp only [addUnits, readNumber_eq hword, e.unit.unitSeconds_letter, bind, Except.bind]
  by_cases hfit : e.seconds < Word.size
  · rw [Word.mul?_eq_some_iff.mpr ⟨hfit, rfl⟩]
    rfl
  · -- A product that is no word takes the total out of range as well.
    have hnone : Word.mul? e.number.value e.unit.seconds = none := if_neg hfit
    rw [hnone]
    exact (add_eq_error_iff.mpr ⟨rfl, by omega⟩).symm

theorem not_isDigit_of_isBlank {c : Char} (h : Text.isBlank c = true) :
    Decimal.isDigit c = false := by
  simp only [Text.isBlank, decide_eq_true_eq] at h
  simp only [Decimal.isDigit, decide_eq_false_iff_not, Char.le_def, UInt32.le_iff_toNat_le]
  have hzero : '0'.val.toNat = 48 := rfl
  have hnine : '9'.val.toNat = 57 := rfl
  change _ ∨ _ at h
  simp only [Char.toNat] at h
  omega

theorem significant_cons_of_isBlank {c : Char} (h : Text.isBlank c = true) (cs : List Char) :
    significant (c :: cs) = significant cs := by
  simp [significant, h]

theorem significant_cons_of_not_isBlank {c : Char} (h : ¬ Text.isBlank c = true)
    (cs : List Char) : significant (c :: cs) = c :: significant cs := by
  simp [significant, h]

theorem readFrom_significant (d : Duration) (digits cs : List Char) :
    readFrom d digits (significant cs) = readFrom d digits cs := by
  induction cs generalizing d digits with
  | nil => rfl
  | cons c cs ih =>
      by_cases hblank : Text.isBlank c = true
      · have hdigit := not_isDigit_of_isBlank hblank
        rw [significant_cons_of_isBlank hblank, ih, readFrom, if_neg (by simp [hdigit]),
          if_pos hblank]
      · rw [significant_cons_of_not_isBlank hblank]
        simp only [readFrom, ih]

theorem readFrom_append {ds : List Char} (hdigits : ∀ c ∈ ds, Decimal.isDigit c = true)
    (d : Duration) (digits cs : List Char) :
    readFrom d digits (ds ++ cs) = readFrom d (digits ++ ds) cs := by
  induction ds generalizing digits with
  | nil => rw [List.nil_append, List.append_nil]
  | cons c ds ih =>
      obtain ⟨hc, hds⟩ := List.forall_mem_cons.mp hdigits
      rw [List.cons_append, readFrom, if_pos hc, ih hds, List.append_assoc]
      rfl

theorem readFrom_letter (d : Duration) (digits cs : List Char) {c : Char}
    (hdigit : Decimal.isDigit c = false) (hblank : Text.isBlank c = false) :
    readFrom d digits (c :: cs) = (d.addUnits digits c >>= (readFrom · [] cs)) := by
  rw [readFrom, if_neg (by simp [hdigit]), if_neg (by simp [hblank])]

/-- After numbers with units, reading goes on with their total. -/
theorem readFrom_entries (d : Duration) {entries : List Entry}
    (hwords : ∀ e ∈ entries, e.number.IsWord) (cs : List Char) :
    readFrom d [] (entries.flatMap Entry.text ++ cs) =
      (d.add ((entries.map Entry.seconds).sum * 1000) >>= (readFrom · [] cs)) := by
  induction entries generalizing d with
  | nil =>
      simp only [List.flatMap_nil, List.nil_append, List.map_nil, List.sum_nil, Nat.zero_mul,
        add_zero]
      rfl
  | cons e entries ih =>
      obtain ⟨hword, hrest⟩ := List.forall_mem_cons.mp hwords
      calc readFrom d [] ((e :: entries).flatMap Entry.text ++ cs)
        _ = readFrom d e.number.digits (e.unit.letter :: (entries.flatMap Entry.text ++ cs)) := by
          simp [Entry.text, readFrom_append e.number.isDigit]
        _ = (d.add (e.seconds * 1000) >>= fun d =>
              d.add ((entries.map Entry.seconds).sum * 1000) >>= (readFrom · [] cs)) := by
          rw [readFrom_letter _ _ _ e.unit.not_isDigit_letter e.unit.not_isBlank_letter,
            addUnits_eq d hword]
          simp only [ih _ hrest]
        _ = _ := by
          rw [← bind_assoc, add_bind_add, List.map_cons, List.sum_cons, Nat.add_mul]

/-- Reading goes on after a duration in writing, which its last number ends if it has no unit. -/
theorem readFrom_text (d : Duration) {w : Writing} (hwords : w.Words) {rest : List Char}
    (hlast : w.last.isSome → rest = []) :
    readFrom d [] (w.text ++ rest) = (d.add w.millis >>= (readFrom · [] rest)) := by
  obtain ⟨entries, last⟩ := w
  rw [Writing.text, List.append_assoc, readFrom_entries d hwords.1, Writing.millis,
    ← add_bind_add, bind_assoc]
  congr 1
  funext d
  cases last with
  | none =>
      change readFrom d [] rest = (d.add 0 >>= _)
      rw [add_zero]
      rfl
  | some n =>
      obtain rfl := hlast rfl
      have hnumber : readNumber n.digits = .ok n.value := readNumber_eq (hwords.2 n rfl)
      change readFrom d [] (n.digits ++ []) = (d.add n.value >>= _)
      rw [readFrom_append n.isDigit, List.nil_append, readFrom, if_neg n.ne_nil, hnumber]
      exact (bind_pure (d.add n.value)).symm

/-! ## What is refused -/

/-- Reading ends with an error that is no fault. -/
def Refused (result : Except ReadError Duration) : Prop :=
  ∃ e, result = .error e ∧ ∀ cause, e ≠ .fault cause

/-- Digits before a letter are a number with its unit, or they are refused. -/
theorem exists_entry_or_refused {digits : List Char}
    (hdigits : ∀ c ∈ digits, Decimal.isDigit c = true) (c : Char) :
    (∃ e : Entry, e.text = digits ++ [c] ∧ e.number.IsWord) ∨
      ∀ d : Duration, Refused (d.addUnits digits c) := by
  by_cases hnil : digits = []
  · subst hnil
    exact Or.inr fun d => ⟨.number .noInteger, rfl, nofun⟩
  · let n : Numeral := ⟨digits, hnil, hdigits⟩
    by_cases hword : n.IsWord
    · have hnumber : readNumber digits = .ok n.value := readNumber_eq hword
      cases hunit : unitSeconds c with
      | some seconds =>
          obtain ⟨u, rfl⟩ := TimeUnit.letter_of_unitSeconds hunit
          exact Or.inl ⟨⟨n, u⟩, rfl, hword⟩
      | none =>
          refine Or.inr fun d => ⟨.suffix c, ?_, nofun⟩
          rw [addUnits, hnumber, hunit]
          rfl
    · refine Or.inr fun d => ⟨.number .tooLarge, ?_, nofun⟩
      have hnumber : readNumber digits = .error (.number .tooLarge) := by
        rw [readNumber, Decimal.readWord_eq n, if_neg hword]
      rw [addUnits, hnumber]
      rfl

theorem Refused.bind {result : Except ReadError Duration} (h : Refused result)
    (f : Duration → Except ReadError Duration) : Refused (result >>= f) := by
  obtain ⟨e, rfl, he⟩ := h
  exact ⟨e, rfl, he⟩

/-- A text starts with a duration in writing. What comes after it is refused. -/
theorem exists_writing (digits : List Char)
    (hdigits : ∀ c ∈ digits, Decimal.isDigit c = true) (cs : List Char) :
    ∃ (w : Writing) (rest : List Char),
      digits ++ significant cs = w.text ++ rest ∧ w.Words ∧
      (rest = [] ∨ w.last = none ∧ ∀ d, Refused (readFrom d [] rest)) := by
  -- Digits that wait for their unit are read already, so the claim for the rest starts with them.
  induction cs generalizing digits with
  | nil =>
      by_cases hnil : digits = []
      · exact ⟨.empty, [], by simp [hnil, significant], Writing.words_empty, Or.inl rfl⟩
      · let n : Numeral := ⟨digits, hnil, hdigits⟩
        by_cases hword : n.IsWord
        · exact ⟨⟨[], some n⟩, [], by simp [significant, Writing.text, n],
            by simp [Writing.Words, hword], Or.inl rfl⟩
        · refine ⟨.empty, digits, by simp [significant], Writing.words_empty,
            Or.inr ⟨rfl, fun d => ⟨.number .tooLarge, ?_, nofun⟩⟩⟩
          have hread := readFrom_append hdigits d [] []
          rw [List.append_nil, List.nil_append] at hread
          rw [hread, readFrom, if_neg hnil, readNumber, Decimal.readWord_eq n, if_neg hword]
          rfl
  | cons c cs ih =>
      by_cases hblank : Text.isBlank c = true
      · rw [significant_cons_of_isBlank hblank]
        exact ih digits hdigits
      rw [significant_cons_of_not_isBlank hblank, ← List.singleton_append, ← List.append_assoc]
      by_cases hdigit : Decimal.isDigit c = true
      · exact ih _ fun c' hc' => (List.mem_append.mp hc').elim (hdigits c')
          fun heq => List.mem_singleton.mp heq ▸ hdigit
      rcases exists_entry_or_refused hdigits c with ⟨e, he, hword⟩ | hrefused
      · obtain ⟨w, rest, htext, hwords, hrest⟩ := ih [] nofun
        refine ⟨w.cons e, rest, ?_, Writing.words_cons_iff.mpr ⟨hword, hwords⟩, hrest⟩
        rw [List.nil_append] at htext
        rw [htext, ← he, Writing.text_cons, List.append_assoc]
      · refine ⟨.empty, digits ++ [c] ++ significant cs, rfl, Writing.words_empty,
          Or.inr ⟨rfl, fun d => ?_⟩⟩
        rw [List.append_assoc, readFrom_append hdigits, List.nil_append, List.singleton_append,
          readFrom_letter _ _ _ (Bool.not_eq_true _ ▸ hdigit) (Bool.not_eq_true _ ▸ hblank)]
        exact (hrefused d).bind _

/-! ## The verdict on a text -/

theorem zero_millis : zero.millis = 0 := rfl

theorem read_eq {cs : List Char} (hne : cs ≠ []) : read cs = readFrom zero [] (significant cs) := by
  rw [readFrom_significant]
  cases cs with
  | nil => exact absurd rfl hne
  | cons c cs => rfl

theorem read_of_exceeds {cs : List Char} (h : Exceeds (significant cs)) :
    read cs = .error (.fault .overflow) := by
  obtain ⟨w, rest, htext, hlast, hwords, hlarge⟩ := h
  have hadd : zero.add w.millis = .error (.fault .overflow) :=
    add_eq_error_iff.mpr ⟨rfl, by rwa [zero_millis, Nat.zero_add]⟩
  have hread : readFrom zero [] (significant cs) = .error (.fault .overflow) := by
    rw [htext, readFrom_text zero hwords hlast, hadd]
    rfl
  have hne : cs ≠ [] := by
    rintro rfl
    cases hread
  exact (read_eq hne).trans hread

theorem fault_iff_exceeds {cs : List Char} :
    (∃ cause, read cs = .error (.fault cause)) ↔ Exceeds (significant cs) := by
  refine ⟨?_, fun h => ⟨.overflow, read_of_exceeds h⟩⟩
  rintro ⟨cause, h⟩
  have hne : cs ≠ [] := by
    rintro rfl
    cases h
  obtain ⟨w, rest, htext, hwords, hrest⟩ := exists_writing [] nofun cs
  have hlast : w.last.isSome → rest = [] := fun hsome =>
    hrest.resolve_right fun hstuck => by simp [hstuck.1] at hsome
  rw [List.nil_append] at htext
  rw [read_eq hne, htext, readFrom_text zero hwords hlast] at h
  refine ⟨w, rest, htext, hlast, hwords, ?_⟩
  cases hadd : zero.add w.millis with
  | error e => simpa [zero_millis] using (add_eq_error_iff.mp hadd).2
  | ok d =>
      rw [hadd] at h
      rcases hrest with rfl | ⟨-, hrefused⟩
      · cases h
      · obtain ⟨e, he, hproper⟩ := hrefused d
        exact absurd (Except.error.inj (he.symm.trans h)) (hproper cause)

/-- A text that is a duration in writing is read as the total of its numbers in their units, unless
that leaves the range of durations. -/
theorem read_text {cs : List Char} (hne : cs ≠ []) {w : Writing} (htext : w.text = significant cs)
    (hwords : w.Words) : read cs = zero.add w.millis := by
  rw [read_eq hne, ← htext, ← List.append_nil w.text, readFrom_text zero hwords fun _ => rfl]
  exact bind_pure (zero.add w.millis)

theorem exists_writing_of_ok {cs : List Char} {d : Duration} (h : read cs = .ok d) :
    cs ≠ [] ∧ ∃ w : Writing, w.text = significant cs ∧ w.Words := by
  have hne : cs ≠ [] := by
    rintro rfl
    cases h
  obtain ⟨w, rest, htext, hwords, rfl | ⟨hlast, hrefused⟩⟩ :=
    exists_writing [] nofun cs
  · exact ⟨hne, w, by simpa using htext.symm, hwords⟩
  · rw [read_eq hne, ← List.nil_append (significant cs), htext,
      readFrom_text zero hwords (by simp [hlast])] at h
    cases hadd : zero.add w.millis with
    | error e =>
        rw [hadd] at h
        cases h
    | ok d' =>
        rw [hadd] at h
        obtain ⟨e, he, -⟩ := hrefused d'
        exact nomatch he.symm.trans h

/-- As long as no total of what was read leaves the range of durations, a text is read if and only
if it is not empty and, without its blanks, a duration in writing. Everything else is refused. -/
theorem read_iff_written (cs : List Char) (hrange : ¬ Exceeds (significant cs)) :
    ((∃ d, read cs = .ok d) ↔
      cs ≠ [] ∧ ∃ w : Writing, w.text = significant cs ∧ w.Words) ∧
    (∀ (d : Duration) (w : Writing), read cs = .ok d → w.text = significant cs → w.Words →
      d.millis = w.millis) ∧
    ∀ cause, read cs ≠ .error (.fault cause) := by
  have hsound : ∀ cause, read cs ≠ .error (.fault cause) := fun cause h =>
    hrange (fault_iff_exceeds.mp ⟨cause, h⟩)
  refine ⟨⟨fun ⟨d, h⟩ => exists_writing_of_ok h, ?_⟩, ?_, hsound⟩
  · rintro ⟨hne, w, htext, hwords⟩
    have hread := read_text hne htext hwords
    cases hadd : zero.add w.millis with
    | ok d => exact ⟨d, hread.trans hadd⟩
    | error e =>
        obtain ⟨rfl, -⟩ := add_eq_error_iff.mp hadd
        exact absurd (hread.trans hadd) (hsound .overflow)
  · intro d w h htext hwords
    have hne := (exists_writing_of_ok h).1
    have hmillis := add_eq_ok_iff.mp ((read_text hne htext hwords).symm.trans h)
    rwa [zero_millis, Nat.zero_add] at hmillis

/-- Units in any order and more than once, and blanks inside of numbers. -/
def mixed : List Char :=
  ['3', 'm', ' ', '1', 'd', '1', '\t', '2', 's', '\u3000', '4', 'm', ' ', '0', '7']

theorem read_mixed : read mixed = .ok ⟨86832007, by decide⟩ := by cbv

theorem read_iff_written_mixed : ¬ Exceeds (significant mixed) ∧ ∃ w : Writing,
    w.text = ['3', 'm', '1', 'd', '1', '2', 's', '4', 'm', '0', '7'] ∧ w.Words ∧
      w.millis = 86832007 := by
  have hrange : ¬ Exceeds (significant mixed) := by
    intro h
    obtain ⟨cause, hfault⟩ := fault_iff_exceeds.mpr h
    exact nomatch read_mixed.symm.trans hfault
  obtain ⟨haccepted, hvalue, -⟩ := read_iff_written mixed hrange
  obtain ⟨-, w, htext, hwords⟩ := haccepted.mp ⟨_, read_mixed⟩
  exact ⟨hrange, w, htext.trans (by decide), hwords, (hvalue _ w read_mixed htext hwords).symm⟩

end Duration

end PushRelabel
