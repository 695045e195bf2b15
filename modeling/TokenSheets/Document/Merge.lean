/-
TokenSheets/Document/Merge.lean

Laying one document over another.

Where both documents hold an object, the result holds the members of both: the
keys of the overlay first, in their order, then the keys that only the base
has.  Everywhere else the overlay wins as a whole.  A few keys name collections
that a user replaces rather than extends; under them the overlay wins even if
both sides are objects.
-/
import TokenSheets.Json.Value

namespace TokenSheets

open Json

/-- Keys whose values are replaced as a whole. -/
def replacedKeys : List String := ["rules", "breakpoints", "colors", "spacements"]

/-- Whether objects on both sides of a key are joined. -/
def isMergeableKey (key : String) : Bool := !replacedKeys.contains key

namespace Json.Value

/-- The members of the base that the overlay does not have. -/
def baseOnly (base overlay : Table Value) : Table Value := base.filter fun m => !overlay.has m.1

mutual

/-- The overlay laid over the base. -/
def merge : Value → Value → Value
  | .object base, .object overlay => .object (overMembers base overlay ++ baseOnly base overlay)
  | _, overlay => overlay

/-- The members of the overlay, joined with those of the base where both are joined. -/
def overMembers (base : Table Value) : List (String × Value) → Table Value
  | [] => []
  | (k, v) :: rest =>
    (k, match base.get? k with
      | some b => if isMergeableKey k then merge b v else v
      | none => v) :: overMembers base rest

end

/-- The members of an overlay table laid over a base table. -/
def mergeTables (base overlay : Table Value) : Table Value :=
  overMembers base overlay ++ baseOnly base overlay

end Json.Value

end TokenSheets
