/-
TokenSheets/Naming.lean

Names of utilities.

A utility is named in camel case.  The name decides which property the utility
sets (`property`) and which family it belongs to: some take their rules from
the color map, some from the spacing map.
-/
namespace TokenSheets.Naming

/-- A letter, then letters and digits. -/
def isUtilityName : List Char → Bool
  | [] => false
  | c :: cs => c.isAlpha && cs.all Char.isAlphanum

/-- Lower case, with a hyphen before what was a capital. -/
def hyphenate (s : List Char) : List Char :=
  s.flatMap fun c => if c.isUpper then ['-', c.toLower] else [c]

/-- Hyphenated lower case of a camel-case name; a capital at the start gets no hyphen. -/
def kebabCase : List Char → List Char
  | [] => []
  | c :: cs => c.toLower :: hyphenate cs

/-- Utilities whose property has another name. -/
def exceptions : List (String × String) :=
  [("textColor", "color"), ("backgroundColor", "background-color")]

/-- The property that a utility sets. -/
def property (name : String) : String :=
  match exceptions.find? fun e => e.1 = name with
  | some e => e.2
  | none => String.ofList (kebabCase name.toList)

/-- Utilities that take their rules from the color map. -/
def colorUtilities : List String := ["textColor", "backgroundColor", "borderColor", "outlineColor"]

def isColorUtility (name : String) : Bool := colorUtilities.contains name

/-- The sides of a box, physical and logical, with none for all sides. -/
def sides : List String :=
  ["", "Top", "Right", "Bottom", "Left", "Block", "BlockStart", "BlockEnd", "Inline",
   "InlineStart", "InlineEnd"]

/-- Utilities that take their rules from the spacing map: the margins, the paddings and the
gaps. -/
def spacingUtilities : List String :=
  sides.map ("margin" ++ ·) ++ sides.map ("padding" ++ ·) ++ ["gap", "rowGap", "columnGap"]

def isSpacingUtility (name : String) : Bool := spacingUtilities.contains name

end TokenSheets.Naming
