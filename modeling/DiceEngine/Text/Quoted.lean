import DiceEngine.Text.Blank
import DiceEngine.Text.Invisible

/-!
# Quoted text

A text between double quotes as a message shows it: quotes, backslashes and the usual controls are
escaped with a backslash, and what cannot be seen is written as its code point.
-/

namespace DiceEngine.Text

/-- The code point of a character in hexadecimal digits, in braces. -/
def codePoint (c : Char) : List Char :=
  ['\\', 'u', '{'] ++ Nat.toDigits 16 c.toNat ++ ['}']

/-- A character as it stands between quotes. -/
def escaped (c : Char) : List Char :=
  match c with
  | '\x00' => ['\\', '0']
  | '\t' => ['\\', 't']
  | '\n' => ['\\', 'n']
  | '\r' => ['\\', 'r']
  | '"' => ['\\', '"']
  | '\\' => ['\\', '\\']
  | c => if isIn invisibleRanges c then codePoint c else [c]

def quoted (s : String) : String := "\"" ++ String.ofList (s.toList.flatMap escaped) ++ "\""

end DiceEngine.Text
