/-
TokenSheets/Sheet/Render.lean

The text of a sheet.

The text follows from the tree alone: two spaces for each level, one statement
a line, and a map with entries spread over lines with a comma after every
entry.  A sheet without items has no text; any other text ends with a line feed.
-/
import TokenSheets.Sheet.Basic
import TokenSheets.Number.Places

namespace TokenSheets

/-! ### Strings -/

/-- A character inside a quoted string; a line feed is written by its code point. -/
def quoteChar (c : Char) : List Char :=
  if c = '"' then ['\\', '"']
  else if c = '\\' then ['\\', '\\']
  else if c = '\n' then ['\\', 'a', ' ']
  else [c]

/-- A quoted string. -/
def quote (s : List Char) : List Char := '"' :: (s.flatMap quoteChar ++ ['"'])

/-- The space before a statement at a depth. -/
def indent (depth : Nat) : List Char := List.replicate (2 * depth) ' '

/-! ### Expressions -/

namespace Expr

mutual

/-- An expression in a statement at a depth. -/
def render (depth : Nat) : Expr → List Char
  | .str s => quote s.toList
  | .literal l => l.text.toList
  | .number d _ => d.placesText
  | .var name => '$' :: name.text.toList
  | .map [] => ['(', ')']
  | .map ((k, e) :: rest) =>
    '(' :: '\n' :: (indent (depth + 1) ++ quote k.toList ++ ':' :: ' ' ::
      (e.render (depth + 1) ++ ',' :: '\n' :: (renderEntries (depth + 1) rest ++
        indent depth ++ [')'])))
  | .call f args => f.text.toList ++ '(' :: (renderArgs depth args ++ [')'])
  | .null => ['n', 'u', 'l', 'l']
  | .escaped c => ['\\', c]

/-- Entries of a map, each on its own line. -/
def renderEntries (depth : Nat) : List (String × Expr) → List Char
  | [] => []
  | (k, e) :: rest =>
    indent depth ++ quote k.toList ++ ':' :: ' ' ::
      (e.render depth ++ ',' :: '\n' :: renderEntries depth rest)

/-- Arguments with commas between them. -/
def renderArgs (depth : Nat) : List Expr → List Char
  | [] => []
  | e :: rest => e.render depth ++ renderMoreArgs depth rest

/-- The arguments after the first one. -/
def renderMoreArgs (depth : Nat) : List Expr → List Char
  | [] => []
  | e :: rest => ',' :: ' ' :: (e.render depth ++ renderMoreArgs depth rest)

end

end Expr

/-! ### Items -/

/-- A parameter with its default, if it has one. -/
def Param.render (depth : Nat) (p : Param) : List Char :=
  '$' :: (p.name.text.toList ++
    match p.default with
    | none => []
    | some e => ':' :: ' ' :: e.render depth)

def renderParams (depth : Nat) (ps : List Param) : List Char :=
  joinWith [',', ' '] (ps.map (Param.render depth))

/-- One line of a comment. -/
def renderCommentLine (depth : Nat) (line : List Char) : List Char :=
  indent depth ++ '/' :: '/' :: ((if line.isEmpty then [] else ' ' :: line) ++ ['\n'])

namespace Item

mutual

/-- A statement with its line end. -/
def render (depth : Nat) : Item → List Char
  | .useModule name => indent depth ++ "@use ".toList ++ quote name.toList ++ [';', '\n']
  | .importSheet path => indent depth ++ "@import ".toList ++ quote path.toList ++ [';', '\n']
  | .assign name value =>
    indent depth ++ '$' :: (name.text.toList ++ ':' :: ' ' :: (value.render depth ++ [';', '\n']))
  | .defineMixin name params body =>
    indent depth ++ "@mixin ".toList ++ name.text.toList ++ '(' :: (renderParams depth params ++
      ')' :: ' ' :: '\x7b' :: '\n' :: (renderAll (depth + 1) body ++ indent depth ++
        ['\x7d', '\n']))
  | .includeMixin name [] => indent depth ++ "@include ".toList ++ name.text.toList ++ [';', '\n']
  | .includeMixin name (e :: es) =>
    indent depth ++ "@include ".toList ++ name.text.toList ++ '(' ::
      (Expr.renderArgs depth (e :: es) ++ [')', ';', '\n'])
  | .comment text => (lines text.toList).flatMap (renderCommentLine depth)

/-- Statements one after the other. -/
def renderAll (depth : Nat) : List Item → List Char
  | [] => []
  | item :: rest => item.render depth ++ renderAll depth rest

end

end Item

/-- The characters of a sheet. -/
def Sheet.render (sheet : Sheet) : List Char := Item.renderAll 0 sheet.items

/-- The text of a sheet. -/
def Sheet.text (sheet : Sheet) : String := String.ofList sheet.render

end TokenSheets
