/-
TokenSheets/Fragment/Settings.lean

The settings sheets: what all utilities rest on.

The core sheet comes first and declares the registry of utilities and, if it is
wanted, the collection of custom properties.  Breakpoints, colors and spacing
follow if they are enabled.  Colors and spacing are maps; each adds itself to
the collection if its flag among the root variables is on (its *capability*).
-/
import TokenSheets.Fragment.Basic
import TokenSheets.Fragment.NamedColors
import TokenSheets.Config.Basic

namespace TokenSheets

namespace SettingsSheets

/-! ### Names -/

def utilityPrefix : Ident := ⟨"utilityPrefix", by decide⟩

def utilitySeparator : Ident := ⟨"utilitySeparator", by decide⟩

def defaultFontSize : Ident := ⟨"defaultFontSize", by decide⟩

def utilities : Ident := ⟨"utilities", by decide⟩

def rootVars : Ident := ⟨"rootVars", by decide⟩

def mqBreakpoints : Ident := ⟨"mq-breakpoints", by decide⟩

def breakpointSeparator : Ident := ⟨"breakpointSeparator", by decide⟩

def colors : Ident := ⟨"colors", by decide⟩

def spacing : Ident := ⟨"spacing", by decide⟩

def mapGet : FunctionName := ⟨"map.get", by decide⟩

def mapSet : FunctionName := ⟨"map.set", by decide⟩

/-- `map.set` of an entry in the map of a variable. -/
def setEntry (variable_ : Ident) (key : String) (value : Expr) : Expr :=
  .call mapSet [.var variable_, .str key, value]

/-- Adds the map of a variable to the collection of custom properties. -/
def exportAs (key : String) (variable_ : Ident) : Item :=
  .assign rootVars (setEntry rootVars key (.var variable_))

/-! ### Steps -/

/-- The core sheet. -/
def core (setup : Setup) : Except GenerateError Sheet := do
  let fontSize ← inContext .defaultFontSize (Expr.literal? setup.defaultFontSize.show)
  return generatedSheet
    ([.assign utilityPrefix (.str setup.classPrefix),
      .assign utilitySeparator (.str setup.separator),
      .assign defaultFontSize fontSize,
      .assign utilities (.map [])] ++
      if setup.rootVars.enabled then [.assign rootVars (.map [])] else [])

/-- Named tokens as entries of a map. -/
def tokenEntries (context : String → SheetContext) :
    Table String → Except GenerateError (List (String × Expr))
  | [] => .ok []
  | (name, text) :: rest => do
    let e ← inContext (context name) (Expr.literal? text)
    let es ← tokenEntries context rest
    return (name, e) :: es

/-- The texts of tokens. -/
def shownTokens (t : Table Token) : Table String := t.map fun e => (e.1, e.2.show)

/-- The breakpoints sheet. -/
def breakpoints (b : BreakpointSettings) : Except GenerateError Sheet := do
  let entries ← tokenEntries .breakpoint (shownTokens b.breakpoints)
  match b.separator.toList with
  | [] => throw (.sheet .breakpointSeparator (.invalidLiteral b.separator))
  | c :: _ =>
    return generatedSheet
      [.assign mqBreakpoints (.map entries), .assign breakpointSeparator (.escaped c)]

/-- All colors by name: the configured ones, then the named ones that are not configured. -/
def palette (c : ColorSettings) : Table String :=
  let configured := shownTokens c.colors
  configured ++
    if c.includesNamed then namedColors.filter fun e => !configured.has e.1 else []

/-- One further name for a color: a look-up in the map as built so far. -/
def aliasItem (name target : String) : Item :=
  .assign colors (setEntry colors name (.call mapGet [.var colors, .str target]))

/-- The aliases in order, given the names that are known before. -/
def aliasItems : List String → Table String → Except GenerateError (List Item)
  | _, [] => .ok []
  | known, (name, target) :: rest => do
    if !known.contains target then throw (.unknownColorAlias name target)
    let items ← aliasItems (name :: known) rest
    return aliasItem name target :: items

/-- The colors sheet. -/
def colorsSheet (c : ColorSettings) (capabilities : List String) :
    Except GenerateError Sheet := do
  let entries ← tokenEntries .color (palette c)
  let aliases ← aliasItems (palette c).keys c.aliases
  return generatedSheet
    ([.useModule "sass:map", .assign colors (.map entries)] ++ aliases ++
      if capabilities.contains "colors" then [exportAs "color" colors] else [])

/-- The base length that a text writes. -/
def baseLength (raw : String) : Except GenerateError Length :=
  (Length.ofString? raw).mapError (.invalidSpacingValue raw)

/-- The scaled lengths by name. -/
def lengthEntries (base : Length) :
    Table Double → Except GenerateError (List (String × Expr))
  | [] => .ok []
  | (name, factor) :: rest => do
    if !factor.isFinite then throw (.invalidSpacingFactor name)
    let e ← inContext (.spacing name) (Expr.literal? (base.scale factor))
    let es ← lengthEntries base rest
    return (name, e) :: es

/-- The spacing sheet. -/
def spacingSheet (s : SpacingSettings) (capabilities : List String) :
    Except GenerateError Sheet := do
  let raw ←
    match s.base with
    | none => throw .missingSpacingValue
    | some raw => pure raw
  let base ← baseLength raw
  let entries ← lengthEntries base s.factors
  let exports := capabilities.contains "spacements"
  return generatedSheet
    ((if exports then [.useModule "sass:map"] else []) ++ [.assign spacing (.map entries)] ++
      if exports then [exportAs "space" spacing] else [])

/-! ### All steps -/

/-- The directory of the settings sheets. -/
def directory : String := "1_settings"

/-- The module that imports the settings sheets. -/
def aggregatorName : String := "mainSettings"

/-- A step that runs if its domain is enabled. -/
def step (enabled : Bool) (name : String) (sheet : Except GenerateError Sheet) :
    Except GenerateError (List Module) :=
  if enabled then sheet.map fun s => [⟨name, s⟩] else .ok []

/-- The enabled settings modules in import order. -/
def modules (setup : Setup) (s : Settings) : Except GenerateError (List Module) := do
  let capabilities := setup.rootVars.capabilities
  let core ← step true "core" (core setup)
  let breakpoints ← step s.breakpoints.enabled "breakpoints" (breakpoints s.breakpoints)
  let colors ← step s.colors.enabled "colors" (colorsSheet s.colors capabilities)
  let spacing ← step s.spacing.enabled "spacing" (spacingSheet s.spacing capabilities)
  return core ++ breakpoints ++ colors ++ spacing

/-- The settings fragments. -/
def generate (setup : Setup) (s : Settings) : Except GenerateError Modules :=
  (modules setup s).map (Modules.ofModules directory aggregatorName)

end SettingsSheets

end TokenSheets
