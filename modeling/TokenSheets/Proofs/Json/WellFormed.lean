/-
TokenSheets/Proofs/Json/WellFormed.lean

Well-formed JSON values.

The type of values is plain data.  It leaves two things open that every JSON
value has: an object does not repeat a key, and a number fits its 64 bits.
`Value.WellFormed` says both, at every depth.  Statements ask for it only where
they would be false without it.
-/
import TokenSheets.Proofs.Table

namespace TokenSheets.Json

/-- A number that a document can hold: an integer of 64 bits, signed or not, or a finite
double. -/
def Number.InRange : Number → Prop
  | .int n => -0x8000000000000000 ≤ n ∧ n < 0x10000000000000000
  | .double d => d.isFinite = true

namespace Value

/-- No object repeats a key, and every number is in range. -/
inductive WellFormed : Value → Prop where
  | null : WellFormed .null
  | bool (b : Bool) : WellFormed (.bool b)
  | number {n : Number} (inRange : n.InRange) : WellFormed (.number n)
  | string (s : String) : WellFormed (.string s)
  | array {items : List Value} (items_wf : ∀ v ∈ items, WellFormed v) : WellFormed (.array items)
  | object {members : List (String × Value)} (nodup : (Table.keys members).Nodup)
      (members_wf : ∀ m ∈ members, WellFormed m.2) : WellFormed (.object members)

@[simp] theorem wellFormed_null : WellFormed .null := .null

@[simp] theorem wellFormed_bool (b : Bool) : WellFormed (.bool b) := .bool b

@[simp] theorem wellFormed_string (s : String) : WellFormed (.string s) := .string s

@[simp] theorem wellFormed_number {n : Number} : WellFormed (.number n) ↔ n.InRange :=
  ⟨fun | .number h => h, .number⟩

@[simp] theorem wellFormed_array {items : List Value} :
    WellFormed (.array items) ↔ ∀ v ∈ items, v.WellFormed :=
  ⟨fun | .array h => h, .array⟩

@[simp] theorem wellFormed_object {members : List (String × Value)} :
    WellFormed (.object members) ↔
      (Table.keys members).Nodup ∧ ∀ m ∈ members, m.2.WellFormed :=
  ⟨fun | .object hk hm => ⟨hk, hm⟩, fun h => .object h.1 h.2⟩

/-- What is found in a well-formed object is well-formed. -/
theorem WellFormed.of_get? {members : List (String × Value)} {k : String} {v : Value}
    (h : WellFormed (.object members)) (hv : Table.get? members k = some v) : v.WellFormed :=
  (wellFormed_object.mp h).2 (k, v) (Table.mem_of_get?_eq_some hv)

/-- What is found in an object is smaller than the object. -/
theorem sizeOf_lt_of_get? {ms : Table Value} {k : String} {v : Value} (h : ms.get? k = some v) :
    sizeOf v < sizeOf (Value.object ms) := by
  have hmem := List.sizeOf_lt_of_mem (Table.mem_of_get?_eq_some h)
  simp only [Prod.mk.sizeOf_spec] at hmem
  simp only [Value.object.sizeOf_spec]
  omega

end Value

end TokenSheets.Json
