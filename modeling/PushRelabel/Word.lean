/-! # Words

Counts, cursors and node numbers are words of 64 bits. A sum or product that
does not fit is reported; only the shared cursors wrap around.
-/

namespace PushRelabel.Word

/-- The number of words. -/
def size : Nat := 1 <<< 64

/-- The number of bytes in a word. -/
def bytes : Nat := 8

def largest : Nat := size - 1

def add? (a b : Nat) : Option Nat := if a + b < size then some (a + b) else none

def mul? (a b : Nat) : Option Nat := if a * b < size then some (a * b) else none

def wrap (a : Nat) : Nat := a % size

theorem wrap_of_lt {a : Nat} (h : a < size) : wrap a = a := Nat.mod_eq_of_lt h

theorem add?_eq_some_iff {a b c : Nat} : add? a b = some c ↔ a + b < size ∧ a + b = c := by
  simp [add?]

theorem mul?_eq_some_iff {a b c : Nat} : mul? a b = some c ↔ a * b < size ∧ a * b = c := by
  simp [mul?]

end PushRelabel.Word
