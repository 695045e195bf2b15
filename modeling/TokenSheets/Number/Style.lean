/-
TokenSheets/Number/Style.lean

How a finite number is laid out as text.

The digits come from the shortest decimal.  A `NumberStyle` holds what is left
to decide: the range of exponents that is written positionally, whether an
integral value keeps `.0`, and whether negative zero keeps its sign.  Outside
the positional range all styles write one digit, the rest after a point, and
the exponent with its sign.
-/
import TokenSheets.Number.Shortest

namespace TokenSheets

/-- The layout decisions of a number format. -/
structure NumberStyle where
  /-- The least exponent of the leading digit that is written positionally. -/
  leastPositional : Int
  /-- The first exponent of the leading digit that is no longer written positionally. -/
  endPositional : Int
  /-- Whether an integral value in positional form ends in `.0`. -/
  keepsPoint : Bool
  /-- Whether negative zero has a sign. -/
  signsZero : Bool
deriving DecidableEq, Repr

namespace NumberStyle

/-- As many zeros as given. -/
def zeros (n : Nat) : List Char := List.replicate n '0'

/-- Digits with the point `pointAt` places after the first digit position. -/
def positional (st : NumberStyle) (digits : List Char) (pointAt : Int) : List Char :=
  if pointAt ≤ 0 then '0' :: '.' :: (zeros (-pointAt).toNat ++ digits)
  else
    let n := pointAt.toNat
    if digits.length ≤ n then
      digits ++ zeros (n - digits.length) ++ (if st.keepsPoint then ['.', '0'] else [])
    else digits.take n ++ '.' :: digits.drop n

/-- One digit before the point and the exponent of that digit. -/
def scientific (digits : List Char) (e : Int) : List Char :=
  let exponent := (if e < 0 then '-' else '+') :: Nat.toDigits 10 e.natAbs
  match digits with
  | [] => []
  | [d] => d :: 'e' :: exponent
  | d :: ds => d :: '.' :: (ds ++ 'e' :: exponent)

/-- The text of a finite number. -/
def write (st : NumberStyle) (d : Double) : List Char :=
  if d.isZero then
    (if st.signsZero && d.isNegative then ['-'] else []) ++ st.positional ['0'] 1
  else
    let s := d.shortest
    let digits := s.text
    let e : Int := s.exponent + digits.length - 1
    (if d.isNegative then ['-'] else []) ++
      if st.leastPositional ≤ e ∧ e < st.endPositional then st.positional digits (e + 1)
      else scientific digits e

end NumberStyle

end TokenSheets
