import PushRelabel.Text.Invisible

/-! # Quoted text

Text between double quotes, as it is shown in messages: the quote, the backslash
and the common controls have escapes of two characters, other invisible characters
are written by their number in braces, and everything else stands for itself.
-/

namespace PushRelabel.Text

def escape (c : Char) : List Char :=
  match c with
  | '"' => ['\\', '"']
  | '\\' => ['\\', '\\']
  | '\n' => ['\\', 'n']
  | '\r' => ['\\', 'r']
  | '\t' => ['\\', 't']
  | '\x00' => ['\\', '0']
  | c =>
      if isInvisible c then ['\\', 'u', '\x7b'] ++ Nat.toDigits 16 c.toNat ++ ['\x7d']
      else [c]

def quote (s : String) : String :=
  String.ofList ('"' :: s.toList.flatMap escape ++ ['"'])

/-- A list of quoted texts in square brackets. -/
def quoteAll (ss : List String) : String :=
  "[" ++ ", ".intercalate (ss.map quote) ++ "]"

end PushRelabel.Text
