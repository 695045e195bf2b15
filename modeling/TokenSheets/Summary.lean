/-
TokenSheets/Summary.lean

The record of a build.

A summary says what a run read, generated and removed, and what was compiled if
it compiled.  Two lists that are mostly empty, the removed fragments and the
artifacts, are left out of its JSON form when there is nothing in them, and may
be absent when it is read.
-/
import TokenSheets.Compile
import TokenSheets.Document.Effective
import TokenSheets.Time.Instant

namespace TokenSheets

open Json

/-- A fragment as it was written. -/
structure FragmentRecord where
  /-- The path below the stylesheet directory. -/
  path : String
  sha256 : String
deriving DecidableEq, Repr

structure Summary where
  schemaVersion : Nat
  schemaId : String
  createdAt : Instant
  configDigest : String
  sources : List Source
  /-- The settings modules in import order. -/
  settings : List String
  /-- The utility modules in import order. -/
  utilities : List String
  fragments : List FragmentRecord
  /-- Fragments of earlier runs that this one removed. -/
  pruned : List String
  /-- Absent if the run only generated. -/
  artifacts : Option Artifacts

namespace Summary

def currentVersion : Nat := 1

def currentId : String := "lazit/build_summary@1"

/-- One line for a terminal. -/
def line (s : Summary) : String :=
  toString s.settings.length ++ " settings module(s), " ++
  toString s.utilities.length ++ " utility module(s), " ++
  toString s.fragments.length ++ " fragment(s)" ++
  match s.artifacts with
  | none => ""
  | some a => "; " ++ a.css.text ++ " (" ++ toString a.cssBytes ++ " bytes)"

end Summary

/-! ### Writing -/

def FragmentRecord.value (r : FragmentRecord) : Value :=
  .object [("path", .string r.path), ("sha256", .string r.sha256)]

def Artifacts.value (a : Artifacts) : Value :=
  .object
    [("css", .string a.css.text), ("map", .string a.map.text), ("css_sha256", .string a.cssSha256),
     ("css_bytes", .number (.int a.cssBytes))]

namespace Summary

/-- A list of texts. -/
def texts (items : List String) : Value := .array (items.map .string)

def value (s : Summary) : Value :=
  .object
    ([("schema_version", .number (.int s.schemaVersion)), ("schema_id", .string s.schemaId),
      ("created_at", .string (String.ofList s.createdAt.write)),
      ("config_digest", .string s.configDigest),
      ("sources", .array (s.sources.map Source.value)), ("settings", texts s.settings),
      ("utilities", texts s.utilities),
      ("fragments", .array (s.fragments.map FragmentRecord.value))] ++
      (if s.pruned.isEmpty then [] else [("pruned", texts s.pruned)]) ++
      (match s.artifacts with
        | none => []
        | some a => [("artifacts", a.value)]))

def json (s : Summary) : String := s.value.prettyText

end Summary

/-! ### Reading -/

namespace FragmentRecord

def form : Form :=
  { name := "FragmentRecord"
    fields := [.required "path" Decode.text, .required "sha256" Decode.text]
    closed := false
    counts := false }

def decode : Decoder FragmentRecord := fun o => do
  let es ← form.entries o
  return ⟨← es.get "path" Decode.text, ← es.get "sha256" Decode.text⟩

end FragmentRecord

namespace Artifacts

/-- A path. -/
def path : Decoder Path := fun o => (Decode.textAs "path string" o).map Path.mk

def form : Form :=
  { name := "CompiledArtifacts"
    fields :=
      [.required "css" path, .required "map" path, .required "css_sha256" Decode.text,
       .required "css_bytes" Decode.natural64]
    closed := false
    counts := false }

def decode : Decoder Artifacts := fun o => do
  let es ← form.entries o
  return ⟨← es.get "css" path, ← es.get "map" path, ← es.get "css_sha256" Decode.text,
    ← es.get "css_bytes" Decode.natural64⟩

end Artifacts

namespace Summary

/-- Decoders of the lists. -/
def decodeSources : Decoder (List Source) := Decode.list Source.decode

def decodeTexts : Decoder (List String) := Decode.list Decode.text

def decodeFragments : Decoder (List FragmentRecord) := Decode.list FragmentRecord.decode

def decodeArtifacts : Decoder (Option Artifacts) := Decode.optional Artifacts.decode

def form : Form :=
  { name := "BuildSummary"
    fields :=
      [.required "schema_version" Decode.natural32, .required "schema_id" Decode.text,
       .required "created_at" Decode.instant, .required "config_digest" Decode.text,
       .required "sources" decodeSources, .required "settings" decodeTexts,
       .required "utilities" decodeTexts, .required "fragments" decodeFragments,
       .defaulted "pruned" decodeTexts, .defaulted "artifacts" decodeArtifacts]
    closed := false
    counts := false }

def decode : Decoder Summary := fun o => do
  let es ← form.entries o
  return {
    schemaVersion := ← es.get "schema_version" Decode.natural32
    schemaId := ← es.get "schema_id" Decode.text
    createdAt := ← es.get "created_at" Decode.instant
    configDigest := ← es.get "config_digest" Decode.text
    sources := ← es.get "sources" decodeSources
    settings := ← es.get "settings" decodeTexts
    utilities := ← es.get "utilities" decodeTexts
    fragments := ← es.get "fragments" decodeFragments
    pruned := ← es.getD "pruned" decodeTexts []
    artifacts := ← es.getD "artifacts" decodeArtifacts none }

/-- A summary from its text. -/
def ofJson (text : String) : Except Mismatch Summary := decodeText decode text

/-! ### On disk -/

/-- Writes a summary and creates the directory it is in. -/
def save (s : Summary) (p : Path) : Task IoError Unit := do
  match p.parent? with
  | none => pure ()
  | some directory => Task.perform IoError.os fun t => t.createDirectories directory
  Task.perform id fun t => t.replaceFile p s.json.toUTF8

/-- The summary in a file. -/
def load (t : FileTree) (p : Path) : Except IoError Summary := do
  let text ← t.readText p
  (ofJson text).mapError .notDocument

end Summary

end TokenSheets
