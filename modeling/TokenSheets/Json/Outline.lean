/-
TokenSheets/Json/Outline.lean

What can be seen of a JSON text, up to the first place where it cannot go on.

Some readers want the whole value, others a record with known members and pass
over the rest.  They have to agree on the syntax, and each has to report the
first thing that *it* cannot accept, in the order of the text.  An outline is
what both start from.  It is a tree in which a syntax fault stands at its place:
a container may be cut short, a value may be missing (`broken`), and a value
that can be passed over but not used is kept with the fault that its use would
raise (`refused`).  Nothing of the text after a cut is in the tree.

`read` takes the whole value or the first fault.  `skip` passes over a value;
it does not mind what `read` refuses, and words some faults differently.
-/
import TokenSheets.Json.Value
import TokenSheets.Json.Fault

namespace TokenSheets.Json

/-- A JSON text up to its first fault. -/
inductive Outline where
  | null
  | bool (b : Bool)
  | number (n : Number)
  | string (s : String)
  /-- The items seen, and the fault instead of the closing bracket. -/
  | array (items : List Outline) (cut : Option Fault)
  /-- The members seen, and the fault instead of the closing brace. -/
  | object (members : List (Except Fault String × Outline)) (cut : Option Fault)
  /-- A value that may be passed over, but not used. -/
  | refused (fault : Fault) (inner : Outline)
  /-- No value. -/
  | broken (fault : Fault)

/-- Continues after a cut, or stops at it. -/
def endOf (cut : Option Fault) : Except Fault Unit :=
  match cut with
  | none => .ok ()
  | some f => .error f

/-! ### Values as outlines -/

mutual

/-- The outline of a value: nothing is missing. -/
def Value.outline : Value → Outline
  | .null => .null
  | .bool b => .bool b
  | .number n => .number n
  | .string s => .string s
  | .array items => .array (Value.outlines items) none
  | .object members => .object (Value.outlineMembers members) none

def Value.outlines : List Value → List Outline
  | [] => []
  | v :: vs => v.outline :: Value.outlines vs

def Value.outlineMembers : List (String × Value) → List (Except Fault String × Outline)
  | [] => []
  | (k, v) :: rest => (.ok k, v.outline) :: Value.outlineMembers rest

end

/-! ### Reading and skipping -/

namespace Outline

mutual

/-- The value, or the first fault in the order of the text.  A repeated key keeps its first
place and takes its last value. -/
def read : Outline → Except Fault Value
  | .null => .ok .null
  | .bool b => .ok (.bool b)
  | .number n => .ok (.number n)
  | .string s => .ok (.string s)
  | .array items cut => do
    let vs ← readItems items
    endOf cut
    return .array vs
  | .object members cut => do
    let ms ← readMembers members []
    endOf cut
    return .object ms
  | .refused f _ => .error f
  | .broken f => .error f

def readItems : List Outline → Except Fault (List Value)
  | [] => .ok []
  | o :: os => do
    let v ← o.read
    let vs ← readItems os
    return v :: vs

def readMembers : List (Except Fault String × Outline) → Table Value → Except Fault (Table Value)
  | [], sofar => .ok sofar
  | (key, o) :: rest, sofar => do
    let k ← key
    let v ← o.read
    readMembers rest (sofar.insert k v)

end

/-- How `skip` words the fault after the items of a list. -/
def skippedItemsCause : Cause → Cause
  | .trailingComma => .expectedValue
  | c => c

/-- How `skip` words the fault after the members of an object. -/
def skippedMembersCause : Cause → Cause
  | .trailingComma => .keyNotString
  | .endInValue => .endInObject
  | c => c

/-- How `skip` words the fault at a value. -/
def skippedValueCause : Cause → Cause
  | .endInNumber => .invalidNumber
  | c => c

mutual

/-- Passes over a value. -/
def skip : Outline → Except Fault Unit
  | .null => .ok ()
  | .bool _ => .ok ()
  | .number _ => .ok ()
  | .string _ => .ok ()
  | .array items cut => do
    skipItems items
    endOf (cut.map fun f => ⟨skippedItemsCause f.cause, f.left⟩)
  | .object members cut => do
    skipMembers members
    endOf (cut.map fun f => ⟨skippedMembersCause f.cause, f.left⟩)
  | .refused _ inner => inner.skip
  | .broken f => .error ⟨skippedValueCause f.cause, f.left⟩

def skipItems : List Outline → Except Fault Unit
  | [] => .ok ()
  | o :: os => do
    o.skip
    skipItems os

def skipMembers : List (Except Fault String × Outline) → Except Fault Unit
  | [] => .ok ()
  | (_, o) :: rest => do
    o.skip
    skipMembers rest

end

end Outline

end TokenSheets.Json
