import PushRelabel.Duration

/-! # Moments

A moment is a reading of a clock that counts from some start and shows fewer than
`2 ^ 63` seconds. Durations may be longer than that, so the moment that lies a
duration ahead need not exist.
-/

namespace PushRelabel

/-- The number of milliseconds that a clock can show. -/
def Moment.count : Nat := 1 <<< 63 * 1000

structure Moment where
  millis : Nat
  millis_lt : millis < Moment.count

namespace Moment

/-- The reading after a number of milliseconds. A clock that has shown everything
starts again. -/
def ofMillis (millis : Nat) : Moment := ⟨millis % count, Nat.mod_lt millis (by decide)⟩

def after? (m : Moment) (d : Duration) : Option Moment :=
  if h : m.millis + d.millis < count then some ⟨m.millis + d.millis, h⟩ else none

end Moment

end PushRelabel
