/-
TokenSheets/Config/Error.lean

Why a configuration cannot be used.
-/
import TokenSheets.FileTree.Operations

namespace TokenSheets

open Json

/-- A document of the right form that breaks a rule. -/
inductive Violation where
  /-- The common start of all class names could not start one. -/
  | classPrefix (text : String)
  /-- A separator has to be one character that is not blank. -/
  | separator (field text : String)
  /-- An entry has a blank name. -/
  | blankName
  | utilityName (name : String)
  | measureUnit (utility unit : String)
deriving DecidableEq, Repr

def Violation.message : Violation → String
  | .classPrefix s => "setup.prefix '" ++ s ++ "' is not a valid class name fragment"
  | .separator field s =>
    field ++ " must be exactly one non-whitespace character, got '" ++ s ++ "'"
  | .blankName => "settings contain an empty entry name"
  | .utilityName s => "utility name '" ++ s ++ "' must be a camel-case identifier"
  | .measureUnit u s => "utility '" ++ u ++ "': invalid measureUnit '" ++ s ++ "'"

/-- Why a configuration cannot be read, or not be accepted, or has no digest. -/
inductive ConfigError where
  | io (path : Path) (source : IoError)
  | empty (path : Path)
  | parse (path : Path) (source : PlacedFault)
  | notAnObject (path : Path)
  | schema (source : Mismatch)
  | validation (source : Violation)
  | canonicalization (text : String)
deriving DecidableEq, Repr

def ConfigError.message : ConfigError → String
  | .io p e => "failed to read " ++ p.text ++ ": " ++ e.message
  | .empty p => p.text ++ " is empty"
  | .parse p e => "failed to parse " ++ p.text ++ ": " ++ e.message
  | .notAnObject p => p.text ++ " must contain a JSON object at the top level"
  | .schema e => "schema error: " ++ e.message
  | .validation e => "validation error: " ++ e.message
  | .canonicalization text => "canonicalization error: " ++ text

end TokenSheets
