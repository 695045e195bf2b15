/-
TokenSheets/Document/Effective.lean

The effective configuration: the merged tree and where it came from.

The default document has to be a readable JSON object.  The user document may
be absent or useless; then the defaults stand alone, and the sources say so.
-/
import TokenSheets.Document.Source
import TokenSheets.Document.Merge
import TokenSheets.Config.Read
import TokenSheets.Json.Scan
import TokenSheets.Json.Canonical

namespace TokenSheets

open Json

/-- A configuration tree with its provenance. -/
structure Effective where
  schemaVersion : Nat
  schemaId : String
  config : Value
  /-- The documents that were considered, the default one first. -/
  sources : List Source

namespace Effective

def currentVersion : Nat := 1

def currentId : String := "lazit/effective_config@1"

/-- The configuration of parsed documents. -/
def ofValues (default : Value) (user : Option Value) (sources : List Source) : Effective :=
  { schemaVersion := currentVersion
    schemaId := currentId
    config := match user with
      | none => default
      | some u => Value.merge default u
    sources }

/-! ### Documents on disk -/

/-- White space of plain text: space, tab, line feed, form feed and carriage return. -/
def isPlainBlank (b : UInt8) : Bool := b = 0x20 || b = 0x09 || b = 0x0A || b = 0x0C || b = 0x0D

/-- A document from the bytes of its file. -/
def parseDocument (p : Path) (contents : ByteArray) : Except ConfigError Value :=
  let bytes := contents.toList
  if bytes.all isPlainBlank then .error (.empty p)
  else
    match readBytes bytes with
    | .error f => .error (.parse p f)
    | .ok v => if v.isObject then .ok v else .error (.notAnObject p)

/-- A document with the digest of its file. -/
def loadDocument (t : FileTree) (p : Path) : Except ConfigError (Value × String) := do
  let contents ← (t.fileBytes p).mapError fun e => .io p (.os e)
  let v ← parseDocument p contents
  return (v, Sha256.hex contents.toList)

/-- The user document and what to record of it. -/
def userSource (t : FileTree) (p : Path) : Option Value × Source :=
  if !t.exists? p then (none, ⟨.user, p.text, none, .missing⟩)
  else
    match loadDocument t p with
    | .ok (v, digest) => (some v, ⟨.user, p.text, some digest, .loaded⟩)
    | .error e =>
      let digest := match t.fileBytes p with
        | .ok contents => some (Sha256.hex contents.toList)
        | .error _ => none
      (none, ⟨.user, p.text, digest, .fallback e.message⟩)

/-- The configuration of the documents at two paths. -/
def resolve (t : FileTree) (default : Path) (user : Option Path) :
    Except ConfigError Effective := do
  let (v, digest) ← loadDocument t default
  let source : Source := ⟨.default, default.text, some digest, .loaded⟩
  match user with
  | none => return ofValues v none [source]
  | some p =>
    let (u, s) := userSource t p
    return ofValues v u [source, s]

/-! ### Looking into the tree -/

/-- Whether the user document took part. -/
def usesUserConfig (e : Effective) : Bool :=
  e.sources.any fun s => s.origin = .user && s.status = .loaded

/-- The value at the end of a chain of keys. -/
def descend (v : Value) : List String → Option Value
  | [] => some v
  | k :: ks => (v.member? k).bind fun w => descend w ks

/-- The value at a dotted path. -/
def get? (e : Effective) (path : String) : Option Value :=
  descend e.config ((splitAt '.' path.toList).map String.ofList)

def typed (e : Effective) : Except ConfigError Config := Config.ofValue e.config

/-- The digest of the canonical form of the tree. -/
def digest (e : Effective) : Except ConfigError String :=
  e.config.fingerprint.mapError .canonicalization

/-! ### JSON form -/

def value (e : Effective) : Value :=
  .object
    [("schema_version", .number (.int e.schemaVersion)), ("schema_id", .string e.schemaId),
     ("config", e.config), ("sources", .array (e.sources.map Source.value))]

def json (e : Effective) : String := e.value.prettyText

def form : Form :=
  { name := "EffectiveConfig"
    fields :=
      [.required "schema_version" Decode.natural32, .required "schema_id" Decode.text,
       .required "config" Decode.any, .required "sources" (Decode.list Source.decode)]
    closed := false
    counts := false }

def decode : Decoder Effective := fun o => do
  let es ← form.entries o
  return ⟨← es.get "schema_version" Decode.natural32, ← es.get "schema_id" Decode.text,
    ← es.get "config" Decode.any, ← es.get "sources" (Decode.list Source.decode)⟩

end Effective

/-- A typed document from its text; what follows the value is looked at last. -/
def Json.decodeText {α : Type} (d : Decoder α) (text : String) : Except Mismatch α := do
  let (o, trailing) := outline (piecesOfText text.toList)
  let a ← d o
  faulty (endOf trailing)
  return a

/-- An effective configuration from its text. -/
def Effective.ofJson (text : String) : Except Mismatch Effective := decodeText Effective.decode text

end TokenSheets
