import PushRelabel.Text.Blank

/-! # Lines

A file is a list of bytes. Its lines end at a line feed, with a carriage return
before it dropped; what follows the last line feed is a line unless it is empty.
-/

namespace PushRelabel.Text

def lineFeed : UInt8 := 10

def carriageReturn : UInt8 := 13

def dropCarriageReturn (line : List UInt8) : List UInt8 :=
  if line.getLast? = some carriageReturn then line.dropLast else line

/-- Every piece but the last was ended by a line feed. -/
def lines (bytes : List UInt8) : List (List UInt8) :=
  let parts := pieces (· == lineFeed) bytes
  let ended := parts.dropLast.map dropCarriageReturn
  match parts.getLast? with
  | some last => if last = [] then ended else ended ++ [last]
  | none => ended

/-- The characters that bytes encode in UTF-8, if they do. -/
def decode (bytes : List UInt8) : Option (List Char) :=
  (String.fromUTF8? bytes.toByteArray).map String.toList

def encode (text : String) : List UInt8 := text.toUTF8.toList

end PushRelabel.Text
