/-
TokenSheets/Json/Mismatch.lean

Why a JSON value is not what a reader expects, with the words for it.
-/
import TokenSheets.Json.Outline
import TokenSheets.Json.Write
import TokenSheets.Text.Shown
import TokenSheets.Time.Instant

namespace TokenSheets.Json

/-! ### What was found -/

/-- What stands where something else was expected. -/
inductive Found where
  | null
  | bool (b : Bool)
  | number (n : Number)
  | string (s : String)
  | sequence
  | map
deriving DecidableEq, Repr

def Found.message : Found → String
  | .null => "null"
  | .bool true => "boolean `true`"
  | .bool false => "boolean `false`"
  | .number (.int n) => "integer `" ++ String.ofList (writeInt n) ++ "`"
  | .number (.double d) => "floating point `" ++ String.ofList (numberStyle.write d) ++ "`"
  | .string s => "string " ++ shown s
  | .sequence => "sequence"
  | .map => "map"

/-- What an outline shows at its root; a container shows itself before it is entered. -/
def Outline.found : Outline → Except Fault Found
  | .null => .ok .null
  | .bool b => .ok (.bool b)
  | .number n => .ok (.number n)
  | .string s => .ok (.string s)
  | .array _ _ => .ok .sequence
  | .object _ _ => .ok .map
  | .refused _ (.array _ _) => .ok .sequence
  | .refused _ (.object _ _) => .ok .map
  | .refused f _ => .error f
  | .broken f => .error f

/-! ### Mismatches -/

/-- Why a document does not have the expected form. -/
inductive Mismatch where
  /-- The text is not JSON. -/
  | fault (f : Fault)
  | type (found : Found) (expected : String)
  | value (found : Found) (expected : String)
  | length (n : Nat) (expected : String)
  | missingField (name : String)
  | unknownField (name : String) (known : List String)
  | duplicateField (name : String)
  | unknownVariant (name : String) (known : List String)
  | noVariant (union : String)
  | instant (why : Instant.Malformed)
deriving DecidableEq, Repr

def ticked (name : String) : String := "`" ++ name ++ "`"

/-- The names that would have been right. -/
def alternatives : List String → String
  | [] => ""
  | [a] => ticked a
  | [a, b] => ticked a ++ " or " ++ ticked b
  | names => "one of " ++ ", ".intercalate (names.map ticked)

/-- The words for a mismatch; a fault of the text is given without its place. -/
def Mismatch.message : Mismatch → String
  | .fault f => f.cause.message
  | .type found expected => "invalid type: " ++ found.message ++ ", expected " ++ expected
  | .value found expected => "invalid value: " ++ found.message ++ ", expected " ++ expected
  | .length n expected => "invalid length " ++ toString n ++ ", expected " ++ expected
  | .missingField name => "missing field " ++ ticked name
  | .unknownField name known =>
    "unknown field " ++ ticked name ++ ", expected " ++ alternatives known
  | .duplicateField name => "duplicate field " ++ ticked name
  | .unknownVariant name known =>
    "unknown variant " ++ ticked name ++ ", expected " ++ alternatives known
  | .noVariant union => "data did not match any variant of untagged enum " ++ union
  | .instant why => why.message

end TokenSheets.Json
