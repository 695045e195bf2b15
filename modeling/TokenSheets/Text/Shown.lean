/-
TokenSheets/Text/Shown.lean

A text inside a message: between quotes, on one line, every character visible.
-/
import TokenSheets.Text.Visible
import TokenSheets.Text.Lines

namespace TokenSheets

/-- The lower-case hexadecimal digits of a number. -/
def hexNumber (n : Nat) : List Char := Nat.toDigits 16 n

/-- A character of a shown text: quotes and backslashes are escaped, common controls have a
letter, and what is not visible is given by its code point. -/
def showChar (c : Char) : List Char :=
  if c = '"' then ['\\', '"']
  else if c = '\\' then ['\\', '\\']
  else if c = '\n' then ['\\', 'n']
  else if c = '\r' then ['\\', 'r']
  else if c = '\t' then ['\\', 't']
  else if c = '\x00' then ['\\', '0']
  else if isVisible c then [c]
  else ['\\', 'u', '\x7b'] ++ hexNumber c.toNat ++ ['\x7d']

/-- A text between quotes as a message shows it. -/
def shown (s : String) : String := String.ofList ('"' :: (s.toList.flatMap showChar ++ ['"']))

end TokenSheets
