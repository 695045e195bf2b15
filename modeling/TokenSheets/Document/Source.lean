/-
TokenSheets/Document/Source.lean

The documents that a configuration was made from.

A source records where a document was looked for and what became of it: it was
used, it was not there, or it was there but could not be used, and why.  The
last two differ for a reader of the record, not for the configuration.  In JSON
the state is written beside the other members, as `status` and, if there is
one, `reason`.
-/
import TokenSheets.Json.Decode

namespace TokenSheets

open Json

/-- Which of the two documents. -/
inductive Origin where
  | default
  | user
deriving DecidableEq, Repr

/-- What became of a document. -/
inductive SourceStatus where
  | loaded
  | missing
  | fallback (reason : String)
deriving DecidableEq, Repr

structure Source where
  origin : Origin
  path : String
  /-- The digest of the bytes of the file, if it could be read. -/
  digest : Option String
  status : SourceStatus
deriving DecidableEq, Repr

/-! ### Writing -/

def Origin.name : Origin → String
  | .default => "default"
  | .user => "user"

def SourceStatus.members : SourceStatus → Table Value
  | .loaded => [("status", .string "loaded")]
  | .missing => [("status", .string "missing")]
  | .fallback reason => [("status", .string "fallback"), ("reason", .string reason)]

def Source.value (s : Source) : Value :=
  .object
    ([("origin", .string s.origin.name), ("path", .string s.path)] ++
      (match s.digest with
        | none => []
        | some d => [("digest", .string d)]) ++
      s.status.members)

/-! ### Reading -/

def Origin.names : List String := ["default", "user"]

def Origin.ofName? (name : String) : Except Mismatch Origin :=
  if name = "default" then .ok .default
  else if name = "user" then .ok .user
  else .error (.unknownVariant name Origin.names)

/-- An origin is a name, or an object with the name as its only key and `null` as its value. -/
def Origin.decode : Decoder Origin
  | .string s => Origin.ofName? s
  | .object [] none => .error (.fault ⟨.expectedValue, 0⟩)
  | .object [] (some f) => .error (.fault f)
  | .object ((key, o) :: rest) cut => do
    let origin ← Origin.ofName? (← faulty key)
    match o with
    | .null => pure ()
    | o => refuse "unit" o
    match rest, cut with
    | [], none => return origin
    | [], some f => throw (.fault (if f.cause = .endInObject then f else ⟨.expectedValue, f.left⟩))
    | _ :: _, _ => throw (.fault ⟨.expectedValue, 0⟩)
  | .refused f _ => .error (.fault f)
  | .broken f => .error (.fault f)
  | _ => .error (.fault ⟨.expectedValue, 0⟩)

/-- The names of the states in order; a state may be given by its number in this list. -/
def SourceStatus.names : List String := ["loaded", "missing", "fallback"]

/-- The number of a state. -/
def SourceStatus.index : Value → Except Mismatch Nat
  | .string s =>
    match SourceStatus.names.findIdx? (· = s) with
    | some i => .ok i
    | none => .error (.unknownVariant s SourceStatus.names)
  | .number (.int n) =>
    if n < 0 then .error (.type (.number (.int n)) "variant identifier")
    else if n < 3 then .ok n.toNat
    else .error (.value (.number (.int n)) "variant index 0 <= i < 3")
  | v => refuse "variant identifier" v.outline

/-- The members of a source that are not fields of their own: the state and whatever else. -/
abbrev Extras := List (String × Value)

/-- The number of the state among the extras, and the extras without it. -/
def SourceStatus.tagged : Extras → Option Nat → Extras → Except Mismatch (Nat × Extras)
  | [], none, _ => .error (.missingField "status")
  | [], some i, others => .ok (i, others)
  | (k, v) :: rest, tag, others =>
    if k = "status" then
      match tag with
      | some _ => .error (.duplicateField "status")
      | none => do
        let i ← SourceStatus.index v
        tagged rest (some i) others
    else tagged rest tag (others ++ [(k, v)])

/-- The reason among the extras. -/
def SourceStatus.reason : Extras → Option String → Except Mismatch String
  | [], none => .error (.missingField "reason")
  | [], some r => .ok r
  | (k, v) :: rest, found =>
    if k = "reason" then
      match found with
      | some _ => .error (.duplicateField "reason")
      | none => do
        let r ← Decode.text v.outline
        reason rest (some r)
    else reason rest found

def SourceStatus.ofExtras (extras : Extras) : Except Mismatch SourceStatus := do
  let (i, others) ← SourceStatus.tagged extras none []
  match i with
  | 0 => return .loaded
  | 1 => return .missing
  | _ => return .fallback (← SourceStatus.reason others none)

/-- What was seen of a source so far. -/
structure SourceDraft where
  origin : Option Origin
  path : Option String
  digest : Option (Option String)
  extras : Extras

def SourceDraft.empty : SourceDraft := ⟨none, none, none, []⟩

/-- The members of a source in order. -/
def SourceDraft.add :
    List (Except Fault String × Outline) → SourceDraft → Except Mismatch SourceDraft
  | [], d => .ok d
  | (key, o) :: rest, d => do
    let k ← faulty key
    if k = "origin" then
      if d.origin.isSome then throw (.duplicateField k)
      let origin ← Origin.decode o
      add rest { d with origin := some origin }
    else if k = "path" then
      if d.path.isSome then throw (.duplicateField k)
      let path ← Decode.text o
      add rest { d with path := some path }
    else if k = "digest" then
      if d.digest.isSome then throw (.duplicateField k)
      let digest ← Decode.optional Decode.text o
      add rest { d with digest := some digest }
    else
      let v ← Decode.any o
      add rest { d with extras := d.extras ++ [(k, v)] }

def Source.decode : Decoder Source
  | .object ms cut => do
    let d ← SourceDraft.add ms .empty
    faulty (endOf cut)
    match d.origin, d.path with
    | none, _ => throw (.missingField "origin")
    | some _, none => throw (.missingField "path")
    | some origin, some path =>
      let status ← SourceStatus.ofExtras d.extras
      return ⟨origin, path, d.digest.getD none, status⟩
  | o => refuse "struct ConfigSource" o

end TokenSheets
