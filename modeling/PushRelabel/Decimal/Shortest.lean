/-! # Shortest decimals

A finite double stands for all the reals that round to it. Its shortest decimal
is the one with the fewest digits among those reals, the nearest to the double
if there are several, and the larger one if two are equally near. All of it is
decided in exact natural arithmetic.
-/

namespace PushRelabel.Decimal

/-- A natural number times a power of ten. -/
structure Scaled where
  digits : Nat
  exponent : Int
deriving DecidableEq

/-- A positive finite double with the ends of its rounding interval, all three
over the common denominator `unit`. -/
structure Interval where
  low : Nat
  value : Nat
  high : Nat
  unit : Nat
  /-- The ends themselves round to the double. -/
  closed : Bool

namespace Interval

/-- Reads the magnitude of a finite double off its bits. Below a power of two
the gap is half as wide as above it, except at the bottom of the range. -/
def ofBits (bits : UInt64) : Interval :=
  let exponentField := ((bits >>> 52) &&& 0x7FF).toNat
  let fraction := (bits &&& 0xFFFFFFFFFFFFF).toNat
  let significand := if exponentField = 0 then fraction else 1 <<< 52 + fraction
  let exponent := max exponentField 1
  let below := if fraction = 0 ∧ exponentField > 1 then 1 else 2
  let up := 1 <<< (exponent - 1075)
  { low := (4 * significand - below) * up
    value := 4 * significand * up
    high := (4 * significand + 2) * up
    unit := 4 <<< (1075 - exponent)
    closed := significand % 2 = 0 }

/-- The same interval measured in steps of `10 ^ exponent`. -/
def inSteps (i : Interval) (exponent : Int) : Interval :=
  let finer := Nat.pow 10 (-exponent).toNat
  { i with
    low := i.low * finer
    value := i.value * finer
    high := i.high * finer
    unit := i.unit * Nat.pow 10 exponent.toNat }

/-- Whether a whole number of steps lies in the interval. -/
def holds (i : Interval) (n : Nat) : Bool :=
  let x := n * i.unit
  (i.low < x ∧ x < i.high) ∨ (i.closed ∧ (i.low = x ∨ x = i.high))

/-- The whole number of steps inside the interval that is nearest to the value;
halfway the larger one. -/
def nearest? (i : Interval) : Option Nat :=
  let below := i.value / i.unit
  let aboveIsNearer := (2 * below + 1) * i.unit ≤ 2 * i.value
  match i.holds below, i.holds (below + 1) with
  | true, true => some (if aboveIsNearer then below + 1 else below)
  | true, false => some below
  | false, true => some (below + 1)
  | false, false => none

/-- A lower bound of the least `k` with value below `10 ^ k`, at most two off. -/
def roughScale (i : Interval) : Int :=
  ((i.value.log2 : Int) - (i.unit.log2 : Int) - 1) * 30103 / 100000

/-- The least `k` with value below `10 ^ k`. -/
def scale (i : Interval) : Int :=
  let rough := i.roughScale
  let fits (k : Int) : Bool := (i.inSteps k).value < (i.inSteps k).unit
  if fits rough then rough
  else if fits (rough + 1) then rough + 1
  else if fits (rough + 2) then rough + 2
  else rough + 3

/-- Tries coarser grids first; seventeen digits always suffice. -/
def search (i : Interval) (scale : Int) : Nat → Nat → Scaled
  | 0, count =>
      ⟨(i.inSteps (scale - count)).value / (i.inSteps (scale - count)).unit, scale - count⟩
  | fuel + 1, count =>
      match (i.inSteps (scale - count)).nearest? with
      | some digits => ⟨digits, scale - count⟩
      | none => search i scale fuel (count + 1)

end Interval

/-- The shortest decimal of a positive finite double. -/
def shortest (bits : UInt64) : Scaled :=
  let i := Interval.ofBits bits
  i.search i.scale 17 1

/-- The same number without trailing zeros in its digits. -/
def Scaled.strip (fuel : Nat) (d : Scaled) : Scaled :=
  match fuel with
  | 0 => d
  | fuel + 1 =>
      if d.digits ≠ 0 ∧ d.digits % 10 = 0 then strip fuel ⟨d.digits / 10, d.exponent + 1⟩ else d

end PushRelabel.Decimal
