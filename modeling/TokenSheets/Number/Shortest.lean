/-
TokenSheets/Number/Shortest.lean

The fewest decimal digits that read back to a value.

The reals that round to a finite value form an interval: from halfway to the
neighbour below to halfway to the neighbour above, ends included exactly when
the mantissa is even.  All of it is scaled by one power of ten to natural
numbers (`Window`).  On the decimal grid with one digit, with two, and so on,
the two grid points around the value are tried; the first grid with a hit
decides, and of two hits the nearer one.  Seventeen digits always suffice.
-/
import TokenSheets.Number.Double

namespace TokenSheets

/-- The natural number `digits` scaled by a power of ten. -/
structure Decimal where
  digits : Nat
  exponent : Int
deriving DecidableEq, Repr, Inhabited

namespace Decimal

/-- The same number without zeros at the end of its digits.  `fuel` bounds their count. -/
def dropZeros : Nat → Decimal → Decimal
  | 0, d => d
  | fuel + 1, d =>
    if d.digits % 10 = 0 ∧ d.digits ≠ 0 then dropZeros fuel ⟨d.digits / 10, d.exponent + 1⟩ else d

/-- The digits as text, the most significant first. -/
def text (d : Decimal) : List Char := Nat.toDigits 10 d.digits

end Decimal

/-- A value with the reals that round to it, in units of one power of ten. -/
structure Window where
  /-- The power of ten that is the unit. -/
  unit : Int
  value : Nat
  low : Nat
  high : Nat
  /-- Whether the ends round to the value too. -/
  closed : Bool
deriving Repr

namespace Window

/-- The window of a finite value that is not zero.  Below a power of two the gap is half as wide. -/
def ofDouble (d : Double) : Window :=
  let places := (-d.exponent).toNat + 2
  let step := Nat.pow 2 d.exponent.toNat * Nat.pow 10 places / Nat.pow 2 (-d.exponent).toNat
  let value := d.mantissa * step
  let narrow := d.fraction = 0 ∧ 1 < d.exponentField
  { unit := -(places : Int)
    value
    low := value - (if narrow then step / 4 else step / 2)
    high := value + step / 2
    closed := d.mantissa % 2 == 0 }

/-- Whether a number of units rounds to the value. -/
def holds (w : Window) (x : Nat) : Bool :=
  if w.closed then decide (w.low ≤ x) && decide (x ≤ w.high)
  else decide (w.low < x) && decide (x < w.high)

/-- The point of a grid that rounds to the value and is nearest to it, if there is one.
Of two equally near points the one with an even last digit is taken. -/
def onGrid (w : Window) (grid : Nat) : Option Nat :=
  let below := w.value / grid * grid
  let above := below + grid
  match w.holds below, w.holds above with
  | true, true =>
    let down := w.value - below
    let up := above - w.value
    if down < up ∨ (down = up ∧ below / grid % 2 = 0) then some below else some above
  | true, false => some below
  | false, true => some above
  | false, false => none

/-- The shortest number of units that rounds to the value, tried from one digit to seventeen. -/
def shortest (w : Window) : Nat :=
  let size := (Nat.toDigits 10 w.value).length
  ((List.range 17).findSome? fun n => w.onGrid (Nat.pow 10 (size - (n + 1)))).getD w.value

end Window

/-- The shortest decimal of the magnitude of a finite value, without zeros at its end. -/
def Double.shortest (d : Double) : Decimal :=
  if d.isZero then ⟨0, 0⟩
  else
    let w := Window.ofDouble d
    let x := w.shortest
    Decimal.dropZeros (Nat.toDigits 10 x).length ⟨x, w.unit⟩

end TokenSheets
