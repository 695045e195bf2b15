/-
TokenSheets/Config/Read.lean

From a document to a typed configuration.

The document first has to have the right form: known keys, values of the right
types, nothing missing (`ConfigDocument.decode`).  Then the utilities are sorted into
their families, and the rules that hold across fields are checked.
-/
import TokenSheets.Config.Basic
import TokenSheets.Config.Error
import TokenSheets.Json.Decode
import TokenSheets.Naming
import TokenSheets.Sheet.Basic

namespace TokenSheets

open Json

/-! ### Form of the sections -/

/-- A token is a number or a text; a container is read to its end before it is refused. -/
def Token.decode : Decoder Token := fun o => do
  match ← Decode.any o with
  | .number n => return .number n
  | .string s => return .text s
  | _ => throw (.noVariant "TokenValue")

/-- The flags beside the main switch, in document order. -/
def RootVars.decodeMembers :
    List (Except Fault String × Outline) → RootVars → Bool → Except Mismatch RootVars
  | [], r, _ => .ok r
  | (key, o) :: rest, r, seen => do
    let k ← faulty key
    if k = "enabled" then
      if seen then throw (.duplicateField "enabled")
      let b ← Decode.boolean o
      decodeMembers rest { r with enabled := b } true
    else
      let v ← Decode.any o
      decodeMembers rest { r with domains := r.domains.insert k v } seen

def RootVars.decode : Decoder RootVars
  | .object ms cut => do
    let r ← decodeMembers ms .off false
    faulty (endOf cut)
    return r
  | o => refuse "struct RootVars" o

/-- A section: closed, and with surplus items counted. -/
def sectionForm (name : String) (fields : List Field) : Form := ⟨name, fields, true, true⟩

def Setup.form : Form :=
  sectionForm "Setup"
    [.required "prefix" Decode.text, .required "separator" Decode.text,
     .required "defaultFontSize" Token.decode, .defaulted "rootVars" RootVars.decode]

def Setup.decode : Decoder Setup := fun o => do
  let es ← Setup.form.entries o
  return ⟨← es.get "prefix" Decode.text, ← es.get "separator" Decode.text,
    ← es.get "defaultFontSize" Token.decode, ← es.getD "rootVars" RootVars.decode .off⟩

def BreakpointSettings.form : Form :=
  sectionForm "BreakpointSettings"
    [.defaulted "enabled" Decode.boolean, .defaulted "separator" Decode.text,
     .defaulted "breakpoints" (Decode.table Token.decode)]

def BreakpointSettings.decode : Decoder BreakpointSettings := fun o => do
  let es ← BreakpointSettings.form.entries o
  return ⟨← es.getD "enabled" Decode.boolean false, ← es.getD "separator" Decode.text "@",
    ← es.getD "breakpoints" (Decode.table Token.decode) []⟩

def ColorSettings.form : Form :=
  sectionForm "ColorSettings"
    [.defaulted "enabled" Decode.boolean, .defaulted "includeHTMLColors" Decode.boolean,
     .defaulted "colors" (Decode.table Token.decode),
     .defaulted "colorAlias" (Decode.table Decode.text)]

def ColorSettings.decode : Decoder ColorSettings := fun o => do
  let es ← ColorSettings.form.entries o
  return ⟨← es.getD "enabled" Decode.boolean false,
    ← es.getD "includeHTMLColors" Decode.boolean false,
    ← es.getD "colors" (Decode.table Token.decode) [],
    ← es.getD "colorAlias" (Decode.table Decode.text) []⟩

def SpacingSettings.form : Form :=
  sectionForm "SpacingSettings"
    [.defaulted "enabled" Decode.boolean,
     .defaulted "defaultSpacingValue" (Decode.optional Decode.text),
     .defaulted "spacements" (Decode.table Decode.double)]

def SpacingSettings.decode : Decoder SpacingSettings := fun o => do
  let es ← SpacingSettings.form.entries o
  return ⟨← es.getD "enabled" Decode.boolean false,
    ← es.getD "defaultSpacingValue" (Decode.optional Decode.text) none,
    ← es.getD "spacements" (Decode.table Decode.double) []⟩

def Settings.form : Form :=
  sectionForm "Settings"
    [.defaulted "breakpoints" BreakpointSettings.decode,
     .defaulted "colors" ColorSettings.decode, .defaulted "spacing" SpacingSettings.decode]

def Settings.decode : Decoder Settings := fun o => do
  let es ← Settings.form.entries o
  return ⟨← es.getD "breakpoints" BreakpointSettings.decode .off,
    ← es.getD "colors" ColorSettings.decode .off,
    ← es.getD "spacing" SpacingSettings.decode .off⟩

/-! ### Form of the utilities -/

/-- A utility as the document defines it. -/
structure UtilityDefinition where
  enabled : Bool
  initial : Token
  rules : Option (Table Token)
  measureUnit : Option String

def UtilityDefinition.form : Form :=
  sectionForm "UtilityDefinition"
    [.defaulted "enabled" Decode.boolean, .required "initial" Token.decode,
     .defaulted "rules" (Decode.optional (Decode.table Token.decode)),
     .defaulted "measureUnit" (Decode.optional Decode.text)]

def UtilityDefinition.decode : Decoder UtilityDefinition := fun o => do
  let es ← UtilityDefinition.form.entries o
  return ⟨← es.getD "enabled" Decode.boolean false, ← es.get "initial" Token.decode,
    ← es.getD "rules" (Decode.optional (Decode.table Token.decode)) none,
    ← es.getD "measureUnit" (Decode.optional Decode.text) none⟩

/-- The utilities section as the document writes it. -/
structure UtilitiesDocument where
  enabled : Bool
  utilities : Table UtilityDefinition

def UtilitiesDocument.form : Form :=
  sectionForm "UtilitiesDocument"
    [.defaulted "enabled" Decode.boolean,
     .defaulted "utilities" (Decode.table UtilityDefinition.decode)]

def UtilitiesDocument.decode : Decoder UtilitiesDocument := fun o => do
  let es ← UtilitiesDocument.form.entries o
  return ⟨← es.getD "enabled" Decode.boolean false,
    ← es.getD "utilities" (Decode.table UtilityDefinition.decode) []⟩

/-! ### Form of the document -/

/-- The whole document as written. -/
structure ConfigDocument where
  setup : Setup
  settings : Settings
  utilities : UtilitiesDocument

def ConfigDocument.form : Form :=
  sectionForm "ConfigDocument"
    [.required "setup" Setup.decode, .defaulted "settings" Settings.decode,
     .defaulted "utilities" UtilitiesDocument.decode]

def ConfigDocument.decode : Decoder ConfigDocument := fun o => do
  let es ← ConfigDocument.form.entries o
  return ⟨← es.get "setup" Setup.decode, ← es.getD "settings" Settings.decode .off,
    ← es.getD "utilities" UtilitiesDocument.decode ⟨false, []⟩⟩

/-! ### Rules -/

/-- Lower-case letters and percent signs, at least one. -/
def isMeasureUnit (s : String) : Bool :=
  !s.isEmpty && s.toList.all fun c => c.isLower || c = '%'

/-- Where a utility takes its rules from: what its definition lists comes first, then its
family decides. -/
def ruleSource (name : String) (d : UtilityDefinition) : RuleSource :=
  match d.rules with
  | some rules => .explicit rules
  | none =>
    if Naming.isColorUtility name then .colors
    else if Naming.isSpacingUtility name then .spacing (d.measureUnit.getD "rem")
    else .custom

/-- A utility from its definition. -/
def Utility.ofDefinition (name : String) (d : UtilityDefinition) : Except Violation Utility :=
  if !Naming.isUtilityName name.toList then .error (.utilityName name)
  else
    match d.measureUnit with
    | some u =>
      if isMeasureUnit u then .ok ⟨name, d.enabled, d.initial.show, ruleSource name d⟩
      else .error (.measureUnit name u)
    | none => .ok ⟨name, d.enabled, d.initial.show, ruleSource name d⟩

/-- The utilities of a document, or the first one that breaks a rule. -/
def utilitiesOf : Table UtilityDefinition → Except Violation (List Utility)
  | [] => .ok []
  | (name, d) :: rest => do
    let u ← Utility.ofDefinition name d
    let us ← utilitiesOf rest
    return u :: us

/-- One character that is not blank. -/
def isSeparator (s : String) : Bool :=
  match s.toList with
  | [c] => !isBlank c
  | _ => false

/-- A name with nothing but blanks. -/
def isBlankName (s : String) : Bool := (trim s.toList).isEmpty

/-- The names of all entries of the settings. -/
def Settings.names (s : Settings) : List String :=
  s.breakpoints.breakpoints.keys ++ s.colors.colors.keys ++ s.colors.aliases.keys ++
    s.spacing.factors.keys

/-- The first rule across fields that a configuration breaks. -/
def Config.violation? (c : Config) : Option Violation :=
  if !isName c.setup.classPrefix.toList then some (.classPrefix c.setup.classPrefix)
  else if !isSeparator c.setup.separator then some (.separator "setup.separator" c.setup.separator)
  else if c.settings.breakpoints.enabled && !isSeparator c.settings.breakpoints.separator then
    some (.separator "settings.breakpoints.separator" c.settings.breakpoints.separator)
  else if c.settings.names.any isBlankName then some .blankName
  else none

/-- The configuration that a document describes. -/
def Config.ofValue (v : Value) : Except ConfigError Config := do
  let d ← (ConfigDocument.decode v.outline).mapError .schema
  let us ← (utilitiesOf d.utilities.utilities).mapError .validation
  let c : Config := ⟨d.setup, d.settings, ⟨d.utilities.enabled, us⟩⟩
  match c.violation? with
  | some e => throw (.validation e)
  | none => return c

end TokenSheets
