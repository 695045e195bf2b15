/-
TokenSheets/Number/Double.lean

Binary floating-point numbers of 64 bits, kept as their bits.

A finite value is `± m · 2 ^ q` with the natural number `m` (`mantissa`) and
the integer `q` (`exponent`) read off the bits.  Every operation that has to
round works on an exact quotient of natural numbers and ends in `nearest`, the
one place where rounding happens: to the nearest representable value, a tie to
the even mantissa, an overflow to infinity.  So all of it is arithmetic on
natural numbers that a proof can follow.
-/
namespace TokenSheets

/-- A quotient rounded to the nearest natural number, a tie to the even one. -/
def roundDivEven (num den : Nat) : Nat :=
  let quotient := num / den
  let twice := 2 * (num % den)
  if den < twice ∨ (twice = den ∧ quotient % 2 = 1) then quotient + 1 else quotient

/-- A quotient rounded to the nearest natural number, a tie upwards. -/
def roundDivUp (num den : Nat) : Nat := (2 * num + den) / (2 * den)

/-- A 64-bit floating-point number, as its sign, exponent and fraction bits. -/
structure Double where
  bits : UInt64
deriving DecidableEq, Repr, Inhabited

namespace Double

/-! ### Reading the bits -/

/-- The sign bit. -/
def isNegative (d : Double) : Bool := d.bits.toNat / 0x8000000000000000 == 1

/-- The eleven exponent bits. -/
def exponentField (d : Double) : Nat := d.bits.toNat / 0x10000000000000 % 2048

/-- The fifty-two fraction bits. -/
def fraction (d : Double) : Nat := d.bits.toNat % 0x10000000000000

def isFinite (d : Double) : Bool := decide (d.exponentField < 2047)

def isNaN (d : Double) : Bool := d.exponentField == 2047 && d.fraction != 0

def isInfinite (d : Double) : Bool := d.exponentField == 2047 && d.fraction == 0

/-- `m` of a finite value `± m · 2 ^ q`; the leading one of a normal value is not stored. -/
def mantissa (d : Double) : Nat :=
  if d.exponentField = 0 then d.fraction else d.fraction + 0x10000000000000

/-- `q` of a finite value `± m · 2 ^ q`; subnormal values share the least exponent. -/
def exponent (d : Double) : Int := (max d.exponentField 1 : Nat) - 1075

/-- Whether the value is zero, of either sign. -/
def isZero (d : Double) : Bool := d.bits.toNat % 0x8000000000000000 == 0

/-- The numerator of the magnitude as a quotient of natural numbers. -/
def numerator (d : Double) : Nat := d.mantissa * Nat.pow 2 d.exponent.toNat

/-- The denominator of the magnitude as a quotient of natural numbers. -/
def denominator (d : Double) : Nat := Nat.pow 2 (-d.exponent).toNat

/-! ### Building values -/

/-- The value with a sign and the bits below the sign. -/
def ofParts (negative : Bool) (magnitude : Nat) : Double :=
  ⟨UInt64.ofNat ((if negative then 0x8000000000000000 else 0) + magnitude)⟩

def zero (negative : Bool) : Double := ofParts negative 0

def infinity (negative : Bool) : Double := ofParts negative 0x7FF0000000000000

def nan : Double := ofParts false 0x7FF8000000000000

/-- The greatest `l` with `2 ^ l ≤ num / den`, for a positive quotient. -/
def floorLog (num den : Nat) : Int :=
  let l : Int := (num.log2 : Int) - den.log2
  if num * Nat.pow 2 (-l).toNat < den * Nat.pow 2 l.toNat then l - 1 else l

/-- The value nearest to `± num / den`, a tie to the even mantissa.

The unit `2 ^ q` leaves 53 binary digits before the point, or fewer for a
quotient so small that the least exponent has to do.  A mantissa that rounds up
to a power of two carries into the exponent field by itself. -/
def nearest (negative : Bool) (num den : Nat) : Double :=
  if num = 0 then zero negative
  else
    let q : Int := max (floorLog num den - 52) (-1074)
    let m := roundDivEven (num * Nat.pow 2 (-q).toNat) (den * Nat.pow 2 q.toNat)
    let magnitude := (q + 1074).toNat * 0x10000000000000 + m
    if magnitude < 0x7FF0000000000000 then ofParts negative magnitude else infinity negative

/-- The value nearest to an integer. -/
def ofInt (n : Int) : Double := nearest (decide (n < 0)) n.natAbs 1

/-- The value nearest to `± digits · 10 ^ exponent`.

Magnitudes far outside the range are settled by their number of digits, so that
no power of ten gets out of hand. -/
def ofDecimal (negative : Bool) (digits : Nat) (exponent : Int) : Double :=
  if digits = 0 then zero negative
  else
    let size : Int := (Nat.toDigits 10 digits).length + exponent
    if 400 < size then infinity negative
    else if size < -400 then zero negative
    else nearest negative (digits * Nat.pow 10 exponent.toNat) (Nat.pow 10 (-exponent).toNat)

/-! ### Arithmetic -/

/-- The nearest value to a product. -/
def mul (a b : Double) : Double :=
  let negative := a.isNegative != b.isNegative
  if a.isNaN || b.isNaN then nan
  else if a.isInfinite || b.isInfinite then
    if a.isZero || b.isZero then nan else infinity negative
  else nearest negative (a.numerator * b.numerator) (a.denominator * b.denominator)

/-- The nearest value to a quotient by a positive natural number. -/
def divNat (a : Double) (k : Nat) : Double :=
  if a.isFinite then nearest a.isNegative a.numerator (a.denominator * k) else a

/-- The integer nearest to a value, a half away from zero. -/
def roundHalfAway (a : Double) : Double :=
  if a.isFinite then nearest a.isNegative (roundDivUp a.numerator a.denominator) 1 else a

end Double

end TokenSheets
