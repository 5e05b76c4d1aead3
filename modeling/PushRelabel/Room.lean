import PushRelabel.Fault
import PushRelabel.Word

/-! # Room for tables

A table keeps entries of one width side by side in memory, where a table has fewer
than `2 ^ 63` bytes. There is no room for a longer one, and who asks for it is
refused before anything is stored.
-/

namespace PushRelabel.Room

/-- The number of bytes that a table may have. -/
def bytes : Nat := 1 <<< 63 - 1

/-- What a table keeps of a row that lies elsewhere: where it is, how long it is, and
how long it may grow there. -/
def rowBytes : Nat := 3 * Word.bytes

/-- Whether there is room for a number of entries of some width. -/
def Holds (width count : Nat) : Prop := width * count ≤ bytes

instance (width count : Nat) : Decidable (Holds width count) :=
  inferInstanceAs (Decidable (width * count ≤ bytes))

/-- Goes on with a table only if there is room for it. -/
def claim {α : Type} (width count : Nat) (table : Unit → α) : Except Fault α :=
  if Holds width count then .ok (table ()) else .error .noRoom

theorem Holds.mono {width m n : Nat} (h : Holds width n) (hmn : m ≤ n) : Holds width m :=
  Nat.le_trans (Nat.mul_le_mul_left width hmn) h

theorem claim_eq_ok {α : Type} {width count : Nat} (table : Unit → α) (h : Holds width count) :
    claim width count table = .ok (table ()) := if_pos h

end PushRelabel.Room
