import PushRelabel.Word

/-! # Reading numbers

Whole numbers are words in ASCII digits, with an optional plus sign. Decimals
have an optional sign, digits with an optional point, at least one digit, and an
optional exponent; or they name an infinity or what is not a number. A decimal is
rounded to the nearest double.
-/

namespace PushRelabel.Decimal

inductive ReadError where
  | noInteger
  | invalidDigit
  | tooLarge
  | noDecimal
  | invalidDecimal
deriving DecidableEq

namespace ReadError

def message : ReadError → String
  | noInteger => "cannot parse integer from empty string"
  | invalidDigit => "invalid digit found in string"
  | tooLarge => "number too large to fit in target type"
  | noDecimal => "cannot parse float from empty string"
  | invalidDecimal => "invalid float literal"

end ReadError

def isDigit (c : Char) : Bool := '0' ≤ c ∧ c ≤ '9'

def digitValue (c : Char) : Nat := c.toNat - '0'.toNat

/-- The number that digits denote after the digits of `n`. -/
def digitsFrom (n : Nat) (ds : List Char) : Nat := ds.foldl (fun n c => 10 * n + digitValue c) n

/-- Reads digit by digit, so a number that is already too large is refused before
a later character that is no digit. -/
def readDigits (n : Nat) : List Char → Except ReadError Nat
  | [] => .ok n
  | c :: cs =>
      if isDigit c then
        if 10 * n + digitValue c < Word.size then readDigits (10 * n + digitValue c) cs
        else .error .tooLarge
      else .error .invalidDigit

def readWord : List Char → Except ReadError Nat
  | [] => .error .noInteger
  | ['+'] => .error .invalidDigit
  | '+' :: cs => readDigits 0 cs
  | cs => readDigits 0 cs

/-- A decimal before rounding: `digits * 10 ^ exponent`, an infinity, or neither. -/
inductive Magnitude where
  | finite (digits : Nat) (exponent : Int)
  | infinite
  | notANumber
deriving DecidableEq

namespace Magnitude

/-- Far outside the range of doubles the rounding is settled by the magnitude alone. -/
def round : Magnitude → Float
  | finite digits exponent =>
      let top := exponent + (Nat.toDigits 10 digits).length
      if digits = 0 ∨ top < -400 then 0.0
      else if 400 < top then 1.0 / 0.0
      else Float.ofScientific digits (exponent < 0) exponent.natAbs
  | infinite => 1.0 / 0.0
  | notANumber => 0.0 / 0.0

end Magnitude

/-- An exponent: nothing, or `e` and a signed whole number. -/
def readExponent : List Char → Option Int
  | [] => some 0
  | e :: cs =>
      if e = 'e' ∨ e = 'E' then
        let (negative, ds) := match cs with
          | '-' :: ds => (true, ds)
          | '+' :: ds => (false, ds)
          | ds => (false, ds)
        if ds ≠ [] ∧ ds.all isDigit then
          some (if negative then -(digitsFrom 0 ds : Int) else digitsFrom 0 ds)
        else none
      else none

def readFinite (cs : List Char) : Option Magnitude :=
  let whole := cs.takeWhile isDigit
  let rest := cs.dropWhile isDigit
  let (places, rest) := match rest with
    | '.' :: rest => (rest.takeWhile isDigit, rest.dropWhile isDigit)
    | rest => ([], rest)
  if whole = [] ∧ places = [] then none
  else (readExponent rest).map fun e =>
    .finite (digitsFrom 0 (whole ++ places)) (e - places.length)

def readMagnitude (cs : List Char) : Option Magnitude :=
  match String.ofList (cs.map Char.toLower) with
  | "inf" | "infinity" => some .infinite
  | "nan" => some .notANumber
  | _ => readFinite cs

def readDecimal : List Char → Except ReadError Float
  | [] => .error .noDecimal
  | c :: cs =>
      let body := if c = '-' ∨ c = '+' then cs else c :: cs
      match readMagnitude body with
      | some m => .ok (if c = '-' then -m.round else m.round)
      | none => .error .invalidDecimal

end PushRelabel.Decimal
