import PushRelabel.Decimal.Shortest

/-! # Decimal layout

How a double is written once its digits are known. A style says where positional
notation ends and whether whole numbers show a fraction.
-/

namespace PushRelabel.Decimal

structure Style where
  /-- Whole numbers end in `.0`. -/
  wholeFraction : Bool
  /-- Whether a nonzero number below `10 ^ k`, and not below `10 ^ (k - 1)`, is positional. -/
  positional : Int → Bool

namespace Style

/-- Positional at every magnitude, with no fraction on whole numbers. -/
def plain : Style := ⟨false, fun _ => true⟩

/-- Positional from `10 ^ -4` up to `10 ^ 16`, with a fraction always shown there. -/
def detailed : Style := ⟨true, fun k => -4 < k ∧ k ≤ 16⟩

def zeros (count : Nat) : List Char := List.replicate count '0'

def positionalText (style : Style) (d : Scaled) : List Char :=
  let ds := Nat.toDigits 10 d.digits
  if 0 ≤ d.exponent then
    ds ++ zeros d.exponent.toNat ++ if style.wholeFraction then ['.', '0'] else []
  else
    let places := (-d.exponent).toNat
    if places < ds.length then
      ds.take (ds.length - places) ++ '.' :: ds.drop (ds.length - places)
    else
      '0' :: '.' :: zeros (places - ds.length) ++ ds

def exponentText (d : Scaled) : List Char :=
  let ds := Nat.toDigits 10 d.digits
  let e := d.exponent + ((ds.length : Int) - 1)
  let mantissa := match ds with
    | c :: c' :: rest => c :: '.' :: c' :: rest
    | _ => ds
  mantissa ++ 'e' :: (if e < 0 then ['-'] else []) ++ Nat.toDigits 10 e.natAbs

def magnitudeText (style : Style) (d : Scaled) : List Char :=
  let k := d.exponent + (Nat.toDigits 10 d.digits).length
  if style.positional k then style.positionalText d else exponentText d

/-- Zero keeps its sign; what is not a number has none. -/
def text (style : Style) (x : Float) : String :=
  if x.isNaN then "NaN"
  else
    let bits := x.toBits
    let magnitude := bits &&& 0x7FFFFFFFFFFFFFFF
    let digits :=
      if x.isInf then ['i', 'n', 'f']
      else if magnitude = 0 then style.positionalText ⟨0, 0⟩
      else style.magnitudeText ((shortest magnitude).strip 17)
    String.ofList (if bits = magnitude then digits else '-' :: digits)

end Style

/-- The text of a quantity in messages and listings. -/
def text (x : Float) : String := Style.plain.text x

end PushRelabel.Decimal
