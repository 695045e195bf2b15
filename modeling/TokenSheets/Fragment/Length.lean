/-
TokenSheets/Fragment/Length.lean

Lengths: a number directly followed by a unit.

The number is digits, digits with a fraction, or a fraction alone; it has no
sign.  The unit is letters and percent signs.  Since no unit has a digit or a
point, there is at most one way to split a text (`split?`).
-/
import TokenSheets.Number.Places
import TokenSheets.Number.Read
import TokenSheets.Text.Blank

namespace TokenSheets

/-- Why a text is no length. -/
inductive LengthFault where
  | empty
  | malformed
  | notANumber
deriving DecidableEq, Repr

def LengthFault.message : LengthFault → String
  | .empty => "value is empty"
  | .malformed => "expected a number followed by a unit, e.g. 16px"
  | .notANumber => "magnitude is not a number"

/-- A length. -/
structure Length where
  magnitude : Double
  unit : String
deriving DecidableEq, Repr

namespace Length

/-- A character of a unit. -/
def isUnitChar (c : Char) : Bool := c.isAlpha || c = '%'

/-- The text of a length in its three parts. -/
structure Split where
  /-- The digits before the point. -/
  whole : List Char
  /-- The digits after the point, if there is one. -/
  part : Option (List Char)
  unit : List Char
deriving DecidableEq, Repr

/-- The text of the number. -/
def Split.number (s : Split) : List Char :=
  s.whole ++ match s.part with | none => [] | some p => '.' :: p

/-- The parts put together again. -/
def Split.text (s : Split) : List Char := s.number ++ s.unit

/-- Some number, complete digit groups, and some unit. -/
def Split.valid (s : Split) : Bool :=
  s.whole.all Char.isDigit && s.unit.all isUnitChar && !s.unit.isEmpty &&
    match s.part with
    | none => !s.whole.isEmpty
    | some p => p.all Char.isDigit && !p.isEmpty

/-- The split at the first characters that are no digits. -/
def cut (s : List Char) : Split :=
  let whole := s.takeWhile Char.isDigit
  match s.dropWhile Char.isDigit with
  | '.' :: rest => ⟨whole, some (rest.takeWhile Char.isDigit), rest.dropWhile Char.isDigit⟩
  | rest => ⟨whole, none, rest⟩

/-- The parts of a length, if the text is one. -/
def split? (s : List Char) : Option Split := if (cut s).valid then some (cut s) else none

/-- The length that a text writes, blanks around it apart.  The number is read on its own; one that
is too large for a double is infinite. -/
def ofString? (raw : String) : Except LengthFault Length :=
  let s := trim raw.toList
  if s.isEmpty then .error .empty
  else
    match split? s with
    | none => .error .malformed
    | some parts =>
      match Double.ofText? parts.number with
      | none => .error .notANumber
      | some magnitude => .ok ⟨magnitude, String.ofList parts.unit⟩

/-- The text of a multiple of a length. -/
def scale (l : Length) (factor : Double) : String :=
  String.ofList ((l.magnitude.mul factor).placesText ++ l.unit.toList)

end Length

end TokenSheets
