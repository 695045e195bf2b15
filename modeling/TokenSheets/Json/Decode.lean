/-
TokenSheets/Json/Decode.lean

Readers of typed values.

A decoder takes an outline and gives a value of its type or the first thing
that does not fit, in the order of the text.  Simple decoders look at the root.
A record is described by a `Form`: its fields with their decoders, and what
happens to other keys.  It may be written as an object or as the list of its
fields.  `Form.entries` does all the checking and gives the fields that are
present; building the record is then a matter of looking them up.
-/
import TokenSheets.Json.Mismatch

namespace TokenSheets.Json

/-- A reader of typed values. -/
abbrev Decoder (α : Type) := Outline → Except Mismatch α

/-- Turns a fault of the text into a mismatch. -/
def faulty {α : Type} : Except Fault α → Except Mismatch α
  | .ok a => .ok a
  | .error f => .error (.fault f)

/-- Reports what stands there. -/
def refuse {α : Type} (expected : String) : Decoder α := fun o =>
  match o.found with
  | .ok found => .error (.type found expected)
  | .error f => .error (.fault f)

namespace Decode

/-! ### Simple values -/

def boolean : Decoder Bool
  | .bool b => .ok b
  | o => refuse "a boolean" o

/-- A text, named in messages by what it stands for. -/
def textAs (expected : String) : Decoder String
  | .string s => .ok s
  | o => refuse expected o

def text : Decoder String := textAs "a string"

/-- A number as a double. -/
def double : Decoder Double
  | .number n => .ok n.toDouble
  | o => refuse "f64" o

/-- A natural number below a bound. -/
def natural (bound : Nat) (expected : String) : Decoder Nat
  | .number (.int n) =>
    if 0 ≤ n ∧ n < bound then .ok n.toNat else .error (.value (.number (.int n)) expected)
  | o => refuse expected o

def natural32 : Decoder Nat := natural 0x100000000 "u32"

def natural64 : Decoder Nat := natural 0x10000000000000000 "u64"

/-- Any value. -/
def any : Decoder Value := fun o => faulty o.read

/-- A value that may be `null`. -/
def optional {α : Type} (d : Decoder α) : Decoder (Option α)
  | .null => .ok none
  | o => (d o).map some

/-- An instant in text form. -/
def instant : Decoder Instant := fun o => do
  let s ← textAs "an RFC 3339 formatted date and time string" o
  (Instant.read s.toList).mapError .instant

/-! ### Collections -/

/-- The items in order. -/
def items {α : Type} (d : Decoder α) : List Outline → Except Mismatch (List α)
  | [] => .ok []
  | o :: os => do
    let a ← d o
    let rest ← items d os
    return a :: rest

def list {α : Type} (d : Decoder α) : Decoder (List α)
  | .array os cut => do
    let as ← items d os
    faulty (endOf cut)
    return as
  | o => refuse "a sequence" o

/-- The entries in order; a repeated name keeps its first place and takes its last entry. -/
def entries {α : Type} (d : Decoder α) :
    List (Except Fault String × Outline) → Table α → Except Mismatch (Table α)
  | [], sofar => .ok sofar
  | (key, o) :: rest, sofar => do
    let k ← faulty key
    let a ← d o
    entries d rest (sofar.insert k a)

def table {α : Type} (d : Decoder α) : Decoder (Table α)
  | .object ms cut => do
    let t ← entries d ms []
    faulty (endOf cut)
    return t
  | o => refuse "a map" o

end Decode

/-! ### Records -/

/-- A field of a record: its name, the check of its value, and whether it may be absent. -/
structure Field where
  name : String
  check : Outline → Except Mismatch Unit
  optional : Bool

/-- A field with a decoder. -/
def Field.required {α : Type} (name : String) (d : Decoder α) : Field :=
  ⟨name, fun o => (d o).map fun _ => (), false⟩

/-- A field with a decoder that may be absent. -/
def Field.defaulted {α : Type} (name : String) (d : Decoder α) : Field :=
  ⟨name, fun o => (d o).map fun _ => (), true⟩

/-- How a record is written. -/
structure Form where
  name : String
  fields : List Field
  /-- Whether a key that names no field is an error; else its value is passed over. -/
  closed : Bool
  /-- Whether surplus items of a list are counted; else the list has to end where they begin. -/
  counts : Bool

namespace Form

/-- The fields that are present, with their outlines. -/
abbrev Entries := Table Outline

def field? (form : Form) (name : String) : Option Field := form.fields.find? (·.name = name)

def names (form : Form) : List String := form.fields.map (·.name)

/-- What a message calls the record. -/
def title (form : Form) : String := "struct " ++ form.name

/-- What a message calls a list of the fields. -/
def titleOfList (form : Form) : String :=
  let n := form.fields.length
  form.title ++ " with " ++ toString n ++ (if n = 1 then " element" else " elements")

/-- The members of an object in order: each one fits its field and comes once. -/
def fromMembers (form : Form) :
    List (Except Fault String × Outline) → Entries → Except Mismatch Entries
  | [], sofar => .ok sofar
  | (key, o) :: rest, sofar => do
    let k ← faulty key
    match form.field? k with
    | some field =>
      if sofar.has k then throw (.duplicateField k)
      field.check o
      form.fromMembers rest (sofar ++ [(k, o)])
    | none =>
      if form.closed then throw (.unknownField k form.names)
      faulty o.skip
      form.fromMembers rest sofar

/-- The first field that is absent but must not be. -/
def absent? (form : Form) (entries : Entries) : Option String :=
  (form.fields.find? fun f => !f.optional && !entries.has f.name).map (·.name)

/-- The items of a list against the fields in order. -/
def fromItems : List Field → List Outline → Except Mismatch Entries
  | f :: fs, o :: os => do
    f.check o
    let rest ← fromItems fs os
    return (f.name, o) :: rest
  | _, _ => .ok []

/-- What is wrong with a list that goes on after the last field. -/
def surplus (form : Form) (total : Nat) (extra : List Outline) (cut : Option Fault) :
    Except Mismatch Unit :=
  match extra, cut with
  | [], none => .ok ()
  | [], some f =>
    match f.cause with
    | .endInList => .error (.fault f)
    | .trailingComma => .error (.fault f)
    | _ => .error (.fault ⟨.trailingCharacters, f.left⟩)
  | _ :: _, _ =>
    if form.counts then .error (.length total "fewer elements in array")
    else .error (.fault ⟨.trailingCharacters, 0⟩)

/-- The first place of a list at which a field is missing that must not be. -/
def shortAt? (form : Form) (count : Nat) : Option Nat :=
  (form.fields.drop count).findIdx? (fun f => !f.optional) |>.map (· + count)

/-- All checks of a record: the fields that are present fit, nothing else is there, and nothing
is missing. -/
def entries (form : Form) (o : Outline) : Except Mismatch Entries :=
  match o with
  | .object ms cut => do
    let es ← form.fromMembers ms []
    faulty (endOf cut)
    match form.absent? es with
    | some name => throw (.missingField name)
    | none => return es
  | .array os cut => do
    let es ← fromItems form.fields os
    if os.length < form.fields.length then
      faulty (endOf cut)
      match form.shortAt? os.length with
      | some n => throw (.length n form.titleOfList)
      | none => return es
    else
      form.surplus os.length (os.drop form.fields.length) cut
      return es
  | .refused f _ => .error (.fault f)
  | o => refuse form.title o

end Form

namespace Form.Entries

/-- A field that must be there. -/
def get {α : Type} (es : Entries) (name : String) (d : Decoder α) : Except Mismatch α :=
  match Table.get? es name with
  | some o => d o
  | none => .error (.missingField name)

/-- A field with a value for when it is absent. -/
def getD {α : Type} (es : Entries) (name : String) (d : Decoder α) (default : α) :
    Except Mismatch α :=
  match Table.get? es name with
  | some o => d o
  | none => .ok default

end Form.Entries

end TokenSheets.Json
