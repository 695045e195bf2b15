/-
TokenSheets/Fragment/Utilities.lean

The utility sheets: one mixin for each enabled utility.

The mixin binds the rules of its utility, if it has any, and hands them with
the property and the initial value to the shared routine `createUtility`.
After its definition the sheet enters the mixin into the registry under the
name of the utility.
-/
import TokenSheets.Fragment.Settings
import TokenSheets.Naming

namespace TokenSheets

namespace UtilitySheets

/-! ### Names -/

def utilityRules : Ident := ⟨"utilityRules", by decide⟩

def breakpoint : Ident := ⟨"breakpoint", by decide⟩

def createUtility : Ident := ⟨"createUtility", by decide⟩

def getMixin : FunctionName := ⟨"meta.get-mixin", by decide⟩

def convertSpaceList : FunctionName := ⟨"convertSpaceList", by decide⟩

/-- The mixin of a utility. -/
def mixinName (u : Utility) : String := u.name ++ "Utility"

/-! ### Rules -/

/-- The rules of a definition as entries of a map. -/
def ruleEntries : Table Token → Except SheetError (List (String × Expr))
  | [] => .ok []
  | (name, token) :: rest => do
    let e ← Expr.literal? token.show
    let es ← ruleEntries rest
    return (name, e) :: es

/-- The rule map of a utility, if it has one.  Spacing rules always know a plain zero. -/
def rules? (source : RuleSource) : Except SheetError (Option Expr) :=
  match source with
  | .explicit rules => (ruleEntries rules).map fun es => some (.map es)
  | .colors => .ok (some (.var SettingsSheets.colors))
  | .spacing unit =>
    .ok (some (.call SettingsSheets.mapSet
      [.call convertSpaceList [.var SettingsSheets.spacing, .str unit], .str "0",
       .number (.zero false) (by decide)]))
  | .custom => .ok none

/-! ### Sheets -/

/-- What the mixin of a utility does. -/
def mixinBody (u : Utility) (rules : Option Expr) : List Item :=
  let create (argument : Expr) : Item :=
    .includeMixin createUtility
      [.str (Naming.property u.name), .str u.initial, argument, .var breakpoint]
  match rules with
  | none => [create .null]
  | some e => [.assign utilityRules e, create (.var utilityRules)]

/-- The sheet of a utility. -/
def sheet (u : Utility) : Except GenerateError Sheet :=
  inContext (.utility u.name) do
    let rules ← rules? u.source
    let mixin ← Item.defineMixin? (mixinName u) [⟨breakpoint, some .null⟩] (mixinBody u rules)
    return generatedSheet
      [.useModule "sass:map", .useModule "sass:meta", mixin,
       .assign SettingsSheets.utilities
         (SettingsSheets.setEntry SettingsSheets.utilities u.name
           (.call getMixin [.str (mixinName u)]))]

/-- The directory of the utility sheets. -/
def directory : String := "7_utilities"

/-- The module that imports the utility sheets. -/
def aggregatorName : String := "mainUtilities"

/-- A module for each of the utilities, in order. -/
def modulesOf : List Utility → Except GenerateError (List Module)
  | [] => .ok []
  | u :: us => do
    let s ← sheet u
    let ms ← modulesOf us
    return ⟨u.name, s⟩ :: ms

/-- The modules of the utilities that are generated. -/
def modules (u : Utilities) : Except GenerateError (List Module) := modulesOf u.active

/-- The utility fragments; without utilities there is still an aggregator to import. -/
def generate (u : Utilities) : Except GenerateError Modules :=
  (modules u).map (Modules.ofModules directory aggregatorName)

/-! ### Rule sources -/

/-- The settings domain that a source of rules needs. -/
def RuleSource.domain? : RuleSource → Option RuleDomain
  | .colors => some .colors
  | .spacing _ => some .spacing
  | .explicit _ => none
  | .custom => none

/-- The first utility that takes its rules from a domain without a settings module. -/
def checkSources (settings : List String) : List Utility → Except GenerateError Unit
  | [] => .ok ()
  | u :: us =>
    match RuleSource.domain? u.source with
    | none => checkSources settings us
    | some domain =>
      if settings.contains domain.name then checkSources settings us
      else .error (.missingRuleSource u.name domain)

/-- Every utility that is generated finds the settings that its rules come from. -/
def checkRuleSources (u : Utilities) (settings : List String) : Except GenerateError Unit :=
  checkSources settings u.active

end UtilitySheets

/-! ### Everything -/

/-- All that a configuration generates. -/
structure Sources where
  settings : Modules
  utilities : Modules
deriving DecidableEq, Repr

/-- The fragments of a configuration. -/
def Config.generate (c : Config) : Except GenerateError Sources := do
  let settings ← SettingsSheets.generate c.setup c.settings
  UtilitySheets.checkRuleSources c.utilities settings.enabled
  let utilities ← UtilitySheets.generate c.utilities
  return ⟨settings, utilities⟩

/-- The fragments of the settings, then those of the utilities. -/
def Sources.fragments (s : Sources) : List Fragment := s.settings.fragments ++ s.utilities.fragments

end TokenSheets
