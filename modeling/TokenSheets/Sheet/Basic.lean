/-
TokenSheets/Sheet/Basic.lean

Stylesheet sources as trees.

A sheet is a list of items, and the values in it are expressions.  What the
rendered text relies on is part of the types: a name is spelled like one, a
literal has no character that ends a statement, a number is finite.  So a tree
that exists can be rendered, and the functions ending in `ofString?` are the
only way from outside text into one.
-/
import TokenSheets.Text.Blank
import TokenSheets.Text.Lines
import TokenSheets.Number.Double

namespace TokenSheets

/-! ### Errors -/

/-- Why a tree cannot be built from a text or a number. -/
inductive SheetError where
  | invalidIdent (text : String)
  | invalidFunction (text : String)
  | invalidLiteral (text : String)
  | nonFiniteNumber (value : Double)
deriving DecidableEq, Repr

/-- The name of a value that is not finite. -/
def Double.nonFiniteName (d : Double) : String :=
  if d.isNaN then "NaN" else if d.isNegative then "-inf" else "inf"

def SheetError.message : SheetError → String
  | .invalidIdent s => "invalid identifier '" ++ s ++ "'"
  | .invalidFunction s => "invalid function name '" ++ s ++ "'"
  | .invalidLiteral s =>
    "invalid literal '" ++ s ++
      "': must be non-empty and free of ';', '\x7b', '\x7d' and line breaks"
  | .nonFiniteNumber d => "number " ++ d.nonFiniteName ++ " is not finite"

/-! ### Names -/

def isNameStart (c : Char) : Bool := c.isAlpha || c = '_' || c = '-'

def isNameChar (c : Char) : Bool := c.isAlphanum || c = '_' || c = '-'

/-- A letter, underscore or hyphen, then such characters and digits. -/
def isName : List Char → Bool
  | [] => false
  | c :: cs => isNameStart c && cs.all isNameChar

/-- The name of a variable, a mixin or a parameter. -/
structure Ident where
  text : String
  isName : isName text.toList = true
deriving DecidableEq

def Ident.ofString? (s : String) : Except SheetError Ident :=
  if h : TokenSheets.isName s.toList = true then .ok ⟨s, h⟩ else .error (.invalidIdent s)

/-- Names between points: a function, or one of a module. -/
def isFunctionName (s : List Char) : Bool := (splitAt '.' s).all isName

/-- The name of a function. -/
structure FunctionName where
  text : String
  isName : isFunctionName text.toList = true
deriving DecidableEq

def FunctionName.ofString? (s : String) : Except SheetError FunctionName :=
  if h : isFunctionName s.toList = true then .ok ⟨s, h⟩ else .error (.invalidFunction s)

/-! ### Literals -/

/-- A character that would end a statement or a block, or break the line. -/
def breaksStatement (c : Char) : Bool :=
  c = ';' || c = '\x7b' || c = '\x7d' || c = '\n' || c = '\r'

/-- Whether a text, trimmed, can stand for a value: there is something and it stays in place. -/
def isUsable (s : List Char) : Bool := !(trim s).isEmpty && !(trim s).any breaksStatement

/-- A value that is written as it is. -/
structure Literal where
  text : String
  isUsable : isUsable text.toList = true
deriving DecidableEq

theorem isUsable_trim {s : List Char} (h : isUsable s = true) : isUsable (trim s) = true := by
  simpa [isUsable, trim_trim] using h

/-- A literal is trimmed first. -/
def Literal.ofString? (s : String) : Except SheetError Literal :=
  if h : TokenSheets.isUsable s.toList = true then
    .ok ⟨String.ofList (trim s.toList), by simpa using isUsable_trim h⟩
  else .error (.invalidLiteral s)

/-! ### Expressions -/

/-- A value of the stylesheet language. -/
inductive Expr where
  /-- A text between quotes. -/
  | str (s : String)
  | literal (l : Literal)
  | number (value : Double) (finite : value.isFinite = true)
  | var (name : Ident)
  /-- Entries in order, with keys between quotes. -/
  | map (entries : List (String × Expr))
  | call (function : FunctionName) (args : List Expr)
  | null
  /-- One character behind a backslash. -/
  | escaped (c : Char)

def Expr.literal? (s : String) : Except SheetError Expr := (Literal.ofString? s).map .literal

def Expr.number? (d : Double) : Except SheetError Expr :=
  if h : d.isFinite = true then .ok (.number d h) else .error (.nonFiniteNumber d)

def Expr.var? (s : String) : Except SheetError Expr := (Ident.ofString? s).map .var

def Expr.call? (f : String) (args : List Expr) : Except SheetError Expr :=
  (FunctionName.ofString? f).map fun f => .call f args

/-! ### Items -/

/-- A parameter of a mixin, with the value it takes when none is given. -/
structure Param where
  name : Ident
  default : Option Expr

def Param.ofString? (s : String) (default : Option Expr) : Except SheetError Param :=
  (Ident.ofString? s).map fun name => ⟨name, default⟩

/-- A statement of a sheet or of a mixin. -/
inductive Item where
  | useModule (name : String)
  | importSheet (path : String)
  | assign (name : Ident) (value : Expr)
  | defineMixin (name : Ident) (params : List Param) (body : List Item)
  | includeMixin (name : Ident) (args : List Expr)
  /-- A comment that may have several lines. -/
  | comment (text : String)

def Item.assign? (s : String) (value : Expr) : Except SheetError Item :=
  (Ident.ofString? s).map fun name => .assign name value

def Item.defineMixin? (s : String) (params : List Param) (body : List Item) :
    Except SheetError Item :=
  (Ident.ofString? s).map fun name => .defineMixin name params body

def Item.includeMixin? (s : String) (args : List Expr) : Except SheetError Item :=
  (Ident.ofString? s).map fun name => .includeMixin name args

/-- The source of one stylesheet file. -/
structure Sheet where
  items : List Item

end TokenSheets
