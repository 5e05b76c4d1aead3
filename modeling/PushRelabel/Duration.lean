import PushRelabel.Decimal.Reading
import PushRelabel.Fault
import PushRelabel.Text.Blank

/-! # Durations

A duration is written as a sequence of whole numbers, each followed by the letter
of its unit; a last number without a letter counts milliseconds. Blanks are
ignored, also inside a number. A duration holds whole seconds in a word.
-/

namespace PushRelabel

structure Duration where
  millis : Nat
  seconds_lt : millis / 1000 < Word.size

namespace Duration

inductive ReadError where
  | empty
  | number (cause : Decimal.ReadError)
  | suffix (c : Char)
  | fault (cause : Fault)

namespace ReadError

def message : ReadError → Option String
  | empty => some "Empty duration string, if you want every 0 milliseconds use `0`."
  | number cause => some cause.message
  | suffix c => some ("Invalid duration suffix: " ++ String.ofList [c])
  | fault _ => none

end ReadError

def zero : Duration := ⟨0, by decide⟩

def add (d : Duration) (millis : Nat) : Except ReadError Duration :=
  if h : (d.millis + millis) / 1000 < Word.size then .ok ⟨d.millis + millis, h⟩
  else .error (.fault .overflow)

/-- The seconds in a unit. -/
def unitSeconds : Char → Option Nat
  | 's' => some 1
  | 'm' => some 60
  | 'h' => some 3600
  | 'd' => some 86400
  | _ => none

def readNumber (digits : List Char) : Except ReadError Nat :=
  match Decimal.readWord digits with
  | .ok n => .ok n
  | .error e => .error (.number e)

/-- Adds a number of units. The product in seconds has to be a word by itself. -/
def addUnits (d : Duration) (digits : List Char) (unit : Char) : Except ReadError Duration := do
  let n ← readNumber digits
  match unitSeconds unit with
  | none => throw (.suffix unit)
  | some seconds =>
      match Word.mul? n seconds with
      | none => throw (.fault .overflow)
      | some total => d.add (total * 1000)

/-- Reads on with the digits of a number that has not met its unit yet. -/
def readFrom (d : Duration) (digits : List Char) : List Char → Except ReadError Duration
  | [] => do
      if digits = [] then return d
      else d.add (← readNumber digits)
  | c :: cs =>
      if Decimal.isDigit c then readFrom d (digits ++ [c]) cs
      else if Text.isBlank c then readFrom d digits cs
      else do readFrom (← d.addUnits digits c) [] cs

def read : List Char → Except ReadError Duration
  | [] => .error .empty
  | cs => readFrom zero [] cs

end Duration

end PushRelabel
