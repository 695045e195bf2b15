/-
TokenSheets/Fragment/Basic.lean

Generated files.

A *module* is a sheet with the name that others import it by.  The modules of a
directory become *fragments*, files with a path and a text, and after them
comes the aggregator, which imports them all in order.  Every generated sheet
begins with the banner; by its first line a fragment is told from a file that
somebody wrote by hand.
-/
import TokenSheets.Sheet.Render
import TokenSheets.Path
import TokenSheets.Digest.Sha256
import TokenSheets.Fragment.Length
import TokenSheets.Text.Utf8

namespace TokenSheets

/-! ### Errors -/

/-- The token or the utility that a sheet could not be built for. -/
inductive SheetContext where
  | defaultFontSize
  | breakpoint (name : String)
  | breakpointSeparator
  | color (name : String)
  | spacing (name : String)
  | utility (name : String)
deriving DecidableEq, Repr

def SheetContext.message : SheetContext → String
  | .defaultFontSize => "setup.defaultFontSize"
  | .breakpoint name => "breakpoint '" ++ name ++ "'"
  | .breakpointSeparator => "settings.breakpoints.separator"
  | .color name => "color '" ++ name ++ "'"
  | .spacing name => "spacing '" ++ name ++ "'"
  | .utility name => "utility '" ++ name ++ "'"

/-- A settings domain that utilities take rules from. -/
inductive RuleDomain where
  | colors
  | spacing
deriving DecidableEq, Repr

def RuleDomain.name : RuleDomain → String
  | .colors => "colors"
  | .spacing => "spacing"

/-- Why a configuration has no sheets. -/
inductive GenerateError where
  | missingSpacingValue
  | invalidSpacingValue (value : String) (reason : LengthFault)
  | invalidSpacingFactor (name : String)
  | unknownColorAlias (name target : String)
  | missingRuleSource (utility : String) (domain : RuleDomain)
  | sheet (context : SheetContext) (source : SheetError)
deriving DecidableEq, Repr

def GenerateError.message : GenerateError → String
  | .missingSpacingValue =>
    "settings.spacing.defaultSpacingValue is required when spacing is enabled"
  | .invalidSpacingValue value reason =>
    "invalid spacing value '" ++ value ++ "': " ++ reason.message
  | .invalidSpacingFactor name => "spacing factor '" ++ name ++ "' is not a finite number"
  | .unknownColorAlias name target =>
    "color alias '" ++ name ++ "' refers to unknown color '" ++ target ++ "'"
  | .missingRuleSource utility domain =>
    "utility '" ++ utility ++ "' takes its rules from the " ++ domain.name ++
      " settings, which are disabled"
  | .sheet context source => context.message ++ ": " ++ source.message

/-- Names what an error of a sheet is about. -/
def inContext {α : Type} (context : SheetContext) :
    Except SheetError α → Except GenerateError α
  | .ok a => .ok a
  | .error e => .error (.sheet context e)

/-! ### Fragments -/

/-- The first line of every generated file. -/
def banner : String :=
  "Generated by lazit. Do not edit: changes are overwritten on every build."

/-- A sheet that begins with the banner. -/
def generatedSheet (items : List Item) : Sheet := ⟨.comment banner :: items⟩

/-- A file to be written, with its path below the stylesheet directory. -/
structure Fragment where
  path : Path
  contents : String
deriving DecidableEq, Repr

namespace Fragment

def ofSheet (path : Path) (sheet : Sheet) : Fragment := ⟨path, sheet.text⟩

def digest (f : Fragment) : String := Sha256.hexOfText f.contents

/-- The name that imports the fragment: its file name without what follows the last point and
without underscores at its start. -/
def moduleName? (f : Fragment) : Option String :=
  f.path.fileName?.map fun name =>
    String.ofList ((Path.stem name).toList.dropWhile (· = '_'))

end Fragment

/-! ### Modules -/

/-- A sheet under the name that others import it by. -/
structure Module where
  name : String
  sheet : Sheet

/-- What is generated into one directory. -/
structure Modules where
  /-- A fragment for each module in order, and the aggregator. -/
  fragments : List Fragment
  /-- The names of the modules in import order. -/
  enabled : List String
deriving DecidableEq, Repr

namespace Modules

/-- The sheet that imports modules by their names. -/
def aggregator (names : List String) : Sheet :=
  generatedSheet (names.map fun name => .importSheet ("./" ++ name))

/-- The path of a module in a directory. -/
def pathOf (directory name : String) : Path := (Path.mk directory).child ("_" ++ name ++ ".scss")

/-- The fragments of modules and of their aggregator, whose name is given. -/
def ofModules (directory main : String) (modules : List Module) : Modules :=
  let names := modules.map (·.name)
  { fragments :=
      modules.map (fun m => Fragment.ofSheet (pathOf directory m.name) m.sheet) ++
        [Fragment.ofSheet (pathOf directory main) (aggregator names)]
    enabled := names }

end Modules

end TokenSheets
