/-
TokenSheets/Number/Places.lean

Numbers with at most four decimal places, as stylesheets carry them.

The value is first brought to a multiple of one ten-thousandth in floating
point (scale, round a half away from zero, scale back).  The result is then
written from its exact value with four places, a tie to the even digit, and
the zeros at the end go, with the point if nothing is left after it.  A
result without any digit but zero has no sign.
-/
import TokenSheets.Number.Double

namespace TokenSheets

/-- How many ten-thousandths a unit has. -/
def placesScale : Nat := 10000

/-- The nearest multiple of one ten-thousandth, as floating-point arithmetic finds it. -/
def Double.toPlaces (d : Double) : Double :=
  ((d.mul (Double.ofInt placesScale)).roundHalfAway).divNat placesScale

/-- The four digits of a number of ten-thousandths below one. -/
def placeDigits (n : Nat) : List Char :=
  [n / 1000 % 10, n / 100 % 10, n / 10 % 10, n % 10].map Nat.digitChar

/-- A text without the zeros it ends with. -/
def dropTrailingZeros : List Char → List Char
  | [] => []
  | c :: cs =>
    match dropTrailingZeros cs with
    | [] => if c = '0' then [] else [c]
    | d :: ds => c :: d :: ds

/-- A number of ten-thousandths as a decimal numeral without idle zeros. -/
def writePlaces (negative : Bool) (n : Nat) : List Char :=
  let whole := Nat.toDigits 10 (n / placesScale)
  let part := dropTrailingZeros (placeDigits (n % placesScale))
  (if negative && n != 0 then ['-'] else []) ++
    (if part.isEmpty then whole else whole ++ '.' :: part)

/-- The stylesheet text of a number; what is not finite is written by name. -/
def Double.placesText (d : Double) : List Char :=
  let r := d.toPlaces
  if r.isNaN then "NaN".toList
  else if r.isFinite then
    writePlaces r.isNegative (roundDivEven (r.numerator * placesScale) r.denominator)
  else (if r.isNegative then "-inf" else "inf").toList

end TokenSheets
