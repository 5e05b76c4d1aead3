/-! # Pseudorandom numbers

A small generator with a state of four words: each step rotates, shifts and adds
them. The seed is spread over the state by a second generator that scrambles a
counter. Draws below a bound take the high half of a product and correct once for
its bias.
-/

namespace PushRelabel

structure Random where
  a : UInt64
  b : UInt64
  c : UInt64
  d : UInt64

namespace Random

def rotate (x : UInt64) (k : UInt64) : UInt64 := (x <<< k) ||| (x >>> (64 - k))

def scramble (counter : UInt64) : UInt64 :=
  let z := (counter ^^^ (counter >>> 30)) * 0xbf58476d1ce4e5b9
  let z := (z ^^^ (z >>> 27)) * 0x94d049bb133111eb
  z ^^^ (z >>> 31)

def ofSeed (seed : UInt64) : Random :=
  let step : UInt64 := 0x9e3779b97f4a7c15
  ⟨scramble (seed + step), scramble (seed + 2 * step), scramble (seed + 3 * step),
    scramble (seed + 4 * step)⟩

def word : StateM Random UInt64 := fun r =>
  let b := r.b ^^^ (r.c ^^^ r.a)
  let c := (r.c ^^^ r.a) ^^^ (r.b <<< 17)
  let d := r.d ^^^ r.b
  (rotate (r.a + r.d) 23 + r.a, ⟨r.a ^^^ d, b, c, rotate d 45⟩)

/-- The high half of a word. -/
def half : StateM Random Nat := return ((← word) >>> 32).toNat

/-- The number of values of half a word. -/
def halfSize : Nat := 1 <<< 32

/-- A natural number below a positive bound of at most half a word. Only if the
low half of the product says that the result may be biased, a second draw decides
whether to add one. -/
def below (bound : Nat) : StateM Random Nat := do
  let product := (← half) * bound
  let high := product / halfSize
  let low := product % halfSize
  if low > halfSize - bound then
    let carry := (← half) * bound / halfSize
    return if halfSize ≤ low + carry then high + 1 else high
  else return high

/-- A double from zero up to a bound: 52 random bits after the binary point, scaled. -/
def upTo (bound : Float) : StateM Random Float := do
  let fraction := Float.ofBits ((0x3ff0000000000000 : UInt64) ||| ((← word) >>> 12)) - 1.0
  return fraction * bound + 0.0

end Random

end PushRelabel
