/-
TokenSheets/Config/Basic.lean

The typed configuration.

A configuration says how classes are named (`Setup`), which design tokens there
are (`Settings`), and which utilities are generated from them (`Utilities`).
Every collection keeps the order of the document, and so will the sheets.
-/
import TokenSheets.Json.Write
import TokenSheets.Document.Merge

namespace TokenSheets

open Json

/-! ### Tokens -/

/-- A design token: a number, or a text such as `16px`. -/
inductive Token where
  | number (n : Number)
  | text (s : String)
deriving DecidableEq, Repr

/-- The text of a token. -/
def Token.show : Token → String
  | .number n => String.ofList n.write
  | .text s => s

/-! ### Setup -/

/-- Which token domains are exported as custom properties: a main switch, and one flag of any
type for each domain. -/
structure RootVars where
  enabled : Bool
  domains : Table Value

def RootVars.off : RootVars := ⟨false, []⟩

/-- The domains whose flag is on, in document order. -/
def RootVars.flagged (r : RootVars) : List String :=
  (r.domains.filter fun d => d.2.isTruthy).map Prod.fst

/-- The domains that are exported: those whose flag is on, if the main switch is. -/
def RootVars.capabilities (r : RootVars) : List String := if r.enabled then r.flagged else []

/-- What all utility classes share. -/
structure Setup where
  /-- What every class name begins with. -/
  classPrefix : String
  separator : String
  defaultFontSize : Token
  rootVars : RootVars

/-! ### Settings -/

structure BreakpointSettings where
  enabled : Bool
  /-- What stands between a class name and the name of a breakpoint. -/
  separator : String
  breakpoints : Table Token
deriving DecidableEq

def BreakpointSettings.off : BreakpointSettings := ⟨false, "@", []⟩

structure ColorSettings where
  enabled : Bool
  /-- Whether the named colors of the web lie under the configured ones. -/
  includesNamed : Bool
  colors : Table Token
  /-- Further names for colors that are there before. -/
  aliases : Table String
deriving DecidableEq

def ColorSettings.off : ColorSettings := ⟨false, false, [], []⟩

structure SpacingSettings where
  enabled : Bool
  /-- The length that every factor multiplies. -/
  base : Option String
  factors : Table Double
deriving DecidableEq

def SpacingSettings.off : SpacingSettings := ⟨false, none, []⟩

structure Settings where
  breakpoints : BreakpointSettings
  colors : ColorSettings
  spacing : SpacingSettings
deriving DecidableEq

def Settings.off : Settings := ⟨.off, .off, .off⟩

/-! ### Utilities -/

/-- Where the rules of a utility come from. -/
inductive RuleSource where
  /-- The definition lists them. -/
  | explicit (rules : Table Token)
  /-- The color map. -/
  | colors
  /-- The spacing map, with its lengths in another unit. -/
  | spacing (unit : String)
  /-- Nowhere; the utility has its initial value only. -/
  | custom
deriving DecidableEq

structure Utility where
  name : String
  enabled : Bool
  initial : String
  source : RuleSource
deriving DecidableEq

structure Utilities where
  enabled : Bool
  entries : List Utility
deriving DecidableEq

/-- The utilities that are generated. -/
def Utilities.active (u : Utilities) : List Utility :=
  if u.enabled then u.entries.filter (·.enabled) else []

/-- A configuration that passed all checks of its form. -/
structure Config where
  setup : Setup
  settings : Settings
  utilities : Utilities

/-! ### Writing back -/

def Token.value : Token → Value
  | .number n => .number n
  | .text s => .string s

def RootVars.value (r : RootVars) : Value := .object (("enabled", .bool r.enabled) :: r.domains)

def Setup.value (s : Setup) : Value :=
  .object
    [("prefix", .string s.classPrefix), ("separator", .string s.separator),
     ("defaultFontSize", s.defaultFontSize.value), ("rootVars", s.rootVars.value)]

def BreakpointSettings.value (b : BreakpointSettings) : Value :=
  .object
    [("enabled", .bool b.enabled), ("separator", .string b.separator),
     ("breakpoints", .object (b.breakpoints.map fun e => (e.1, e.2.value)))]

def ColorSettings.value (c : ColorSettings) : Value :=
  .object
    [("enabled", .bool c.enabled), ("includeHTMLColors", .bool c.includesNamed),
     ("colors", .object (c.colors.map fun e => (e.1, e.2.value))),
     ("colorAlias", .object (c.aliases.map fun e => (e.1, .string e.2)))]

def SpacingSettings.value (s : SpacingSettings) : Value :=
  .object
    [("enabled", .bool s.enabled),
     ("defaultSpacingValue", match s.base with | none => .null | some b => .string b),
     ("spacements", .object (s.factors.map fun e => (e.1, .number (.double e.2))))]

def Settings.value (s : Settings) : Value :=
  .object
    [("breakpoints", s.breakpoints.value), ("colors", s.colors.value),
     ("spacing", s.spacing.value)]

end TokenSheets
