/-
TokenSheets/Json/Write.lean

JSON values as text, in one line or indented.

A string escapes what it has to and nothing else; a number that came as an
integer is written as one, a double with the fewest digits that read back
(`numberStyle`).  The indented form puts every item and member on a line of its
own, two spaces deeper than its container; empty containers stay in one piece.
-/
import TokenSheets.Json.Value
import TokenSheets.Number.Style
import TokenSheets.Text.Lines

namespace TokenSheets.Json

/-! ### Strings -/

/-- A character inside a string. -/
def escapeChar (c : Char) : List Char :=
  if c = '"' then ['\\', '"']
  else if c = '\\' then ['\\', '\\']
  else if c = '\x08' then ['\\', 'b']
  else if c = '\x0c' then ['\\', 'f']
  else if c = '\n' then ['\\', 'n']
  else if c = '\r' then ['\\', 'r']
  else if c = '\t' then ['\\', 't']
  else if c.toNat < 0x20 then
    ['\\', 'u', '0', '0', hexDigit (c.toNat / 16), hexDigit (c.toNat % 16)]
  else [c]

/-- A string between quotes. -/
def quoteText (s : List Char) : List Char := '"' :: (s.flatMap escapeChar ++ ['"'])

/-! ### Numbers -/

/-- Doubles of JSON documents are positional from one hundred-thousandth to below ten
quadrillions; integral ones keep a zero after the point. -/
def numberStyle : NumberStyle := ⟨-5, 16, true, true⟩

def writeInt (n : Int) : List Char :=
  (if n < 0 then ['-'] else []) ++ Nat.toDigits 10 n.natAbs

def Number.write : Number → List Char
  | .int n => writeInt n
  | .double d => numberStyle.write d

/-! ### One line -/

namespace Value

mutual

/-- The value without any space. -/
def compact : Value → List Char
  | .null => ['n', 'u', 'l', 'l']
  | .bool true => ['t', 'r', 'u', 'e']
  | .bool false => ['f', 'a', 'l', 's', 'e']
  | .number n => n.write
  | .string s => quoteText s.toList
  | .array [] => ['[', ']']
  | .array (v :: vs) => '[' :: (v.compact ++ compactItems vs ++ [']'])
  | .object [] => ['\x7b', '\x7d']
  | .object ((k, v) :: ms) =>
    '\x7b' :: (quoteText k.toList ++ ':' :: (v.compact ++ compactMembers ms ++ ['\x7d']))

/-- The items after the first one. -/
def compactItems : List Value → List Char
  | [] => []
  | v :: vs => ',' :: (v.compact ++ compactItems vs)

/-- The members after the first one. -/
def compactMembers : List (String × Value) → List Char
  | [] => []
  | (k, v) :: ms => ',' :: (quoteText k.toList ++ ':' :: (v.compact ++ compactMembers ms))

end

/-! ### Indented -/

/-- A new line, indented to a depth. -/
def newLine (depth : Nat) : List Char := '\n' :: List.replicate (2 * depth) ' '

mutual

/-- The value with one item or member a line, its container being at a depth. -/
def pretty (depth : Nat) : Value → List Char
  | .null => ['n', 'u', 'l', 'l']
  | .bool true => ['t', 'r', 'u', 'e']
  | .bool false => ['f', 'a', 'l', 's', 'e']
  | .number n => n.write
  | .string s => quoteText s.toList
  | .array [] => ['[', ']']
  | .array (v :: vs) =>
    '[' :: (newLine (depth + 1) ++ v.pretty (depth + 1) ++ prettyItems (depth + 1) vs ++
      newLine depth ++ [']'])
  | .object [] => ['\x7b', '\x7d']
  | .object ((k, v) :: ms) =>
    '\x7b' :: (newLine (depth + 1) ++ quoteText k.toList ++ ':' :: ' ' ::
      (v.pretty (depth + 1) ++ prettyMembers (depth + 1) ms ++ newLine depth ++ ['\x7d']))

/-- The items after the first one. -/
def prettyItems (depth : Nat) : List Value → List Char
  | [] => []
  | v :: vs => ',' :: (newLine depth ++ v.pretty depth ++ prettyItems depth vs)

/-- The members after the first one. -/
def prettyMembers (depth : Nat) : List (String × Value) → List Char
  | [] => []
  | (k, v) :: ms =>
    ',' :: (newLine depth ++ quoteText k.toList ++ ':' :: ' ' ::
      (v.pretty depth ++ prettyMembers depth ms))

end

/-- The text in one line. -/
def compactText (v : Value) : String := String.ofList v.compact

/-- The indented text. -/
def prettyText (v : Value) : String := String.ofList (v.pretty 0)

end Value

end TokenSheets.Json
