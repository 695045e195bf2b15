/-
TokenSheets/Json/Value.lean

JSON values.

Members of an object keep their order, because the generated sheets follow it.
Integers and floating-point numbers are kept apart: a document that says `1`
is written back as `1`, and one that says `1.0` as `1.0`.
-/
import TokenSheets.Number.Double

namespace TokenSheets

/-! ### Tables -/

/-- Named entries in the order in which the names first came up. -/
abbrev Table (α : Type) := List (String × α)

namespace Table

variable {α : Type}

/-- The names in order. -/
def keys (t : Table α) : List String := t.map Prod.fst

/-- The entry of a name: replaced where it stands, or appended. -/
def insert (t : Table α) (key : String) (value : α) : Table α :=
  match t with
  | [] => [(key, value)]
  | (k, v) :: rest => if k = key then (k, value) :: rest else (k, v) :: insert rest key value

/-- The table of a list of entries: a repeated name keeps its first place and its last entry. -/
def ofEntries (entries : List (String × α)) : Table α :=
  entries.foldl (fun t e => t.insert e.1 e.2) []

/-- The first entry of a name. -/
def get? : Table α → String → Option α
  | [], _ => none
  | (k, v) :: rest, key => if k = key then some v else get? rest key

/-- Whether a name has an entry. -/
def has (t : Table α) (key : String) : Bool := (t.get? key).isSome

end Table

/-! ### Values -/

namespace Json

/-- A number: an integer of 64 bits, signed or not, or a finite double. -/
inductive Number where
  | int (n : Int)
  | double (d : Double)
deriving DecidableEq, Repr

/-- The nearest double. -/
def Number.toDouble : Number → Double
  | .int n => Double.ofInt n
  | .double d => d

/-- A JSON value. -/
inductive Value where
  | null
  | bool (b : Bool)
  | number (n : Number)
  | string (s : String)
  | array (items : List Value)
  | object (members : List (String × Value))
deriving Repr, Inhabited

namespace Value

/-- The members of an object. -/
def members? : Value → Option (Table Value)
  | .object ms => some ms
  | _ => none

def string? : Value → Option String
  | .string s => some s
  | _ => none

def bool? : Value → Option Bool
  | .bool b => some b
  | _ => none

def isObject (v : Value) : Bool := v.members?.isSome

/-- The value of a member; only objects have members. -/
def member? (v : Value) (key : String) : Option Value :=
  v.members?.bind fun ms => ms.get? key

/-- Whether a flag given by any value is on: all but `null`, `false`, zero and the empty text. -/
def isTruthy : Value → Bool
  | .null => false
  | .bool b => b
  | .number n => !n.toDouble.isZero
  | .string s => !s.isEmpty
  | .array _ => true
  | .object _ => true

end Value

end Json

end TokenSheets
