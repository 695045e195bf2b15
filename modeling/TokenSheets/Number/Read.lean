/-
TokenSheets/Number/Read.lean

The number that a text writes in full.

After an optional sign stands the name of what is not finite, or a numeral:
digits, of which any may stand after a point, and an optional exponent.  Neither
the names nor the mark of the exponent care about case.  A numeral needs a digit
before or after its point and digits in its exponent; nothing may stand around
it.  The value is the nearest one (`Double.ofDecimal`).
-/
import TokenSheets.Number.Double

namespace TokenSheets

/-- Whether a text begins with a minus sign, and what follows its sign. -/
def takeSign : List Char → Bool × List Char
  | '-' :: rest => (true, rest)
  | '+' :: rest => (false, rest)
  | text => (false, text)

/-- The number that follows the mark of an exponent; without a mark the exponent is zero. -/
def exponentOfText? : List Char → Option Int
  | [] => some 0
  | mark :: text =>
    let (negative, digits) := takeSign text
    if mark.toLower = 'e' ∧ !digits.isEmpty ∧ digits.all Char.isDigit then
      let n := Nat.ofDigitChars 10 digits 0
      some (if negative then -n else n)
    else none

namespace Double

/-- The value of a numeral without a sign, with the sign that stood before it. -/
def ofNumeral? (negative : Bool) (text : List Char) : Option Double :=
  let whole := text.takeWhile Char.isDigit
  let (part, rest) :=
    match text.dropWhile Char.isDigit with
    | '.' :: rest => (rest.takeWhile Char.isDigit, rest.dropWhile Char.isDigit)
    | rest => ([], rest)
  if whole.isEmpty && part.isEmpty then none
  else
    (exponentOfText? rest).map fun e =>
      ofDecimal negative (Nat.ofDigitChars 10 (whole ++ part) 0) (e - part.length)

/-- The value that a text writes. -/
def ofText? (text : List Char) : Option Double :=
  let (negative, rest) := takeSign text
  let name := String.ofList (rest.map Char.toLower)
  if name = "inf" ∨ name = "infinity" then some (infinity negative)
  else if name = "nan" then some (ofParts negative nan.bits.toNat)
  else ofNumeral? negative rest

end Double

end TokenSheets
