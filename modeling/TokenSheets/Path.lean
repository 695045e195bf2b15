/-
TokenSheets/Path.lean

Paths of files, as text.

A path keeps the text it was given, since the text is what reports and
summaries show.  Its parts are read off the text: repeated separators, a
separator at the end and dots inside the path do not count, a dot at the start
of a relative path does.  Two paths with the same parts name the same file.
The text splits into a head (the root, the starting dot or nothing) and a body
of segments; taking the parent cuts segments off the body.
-/
import TokenSheets.Text.Lines

namespace TokenSheets

/-- One part of a path. -/
inductive PathPart where
  | root
  | current
  | parent
  | name (s : String)
deriving DecidableEq, Repr

/-- The text of a part. -/
def PathPart.text : PathPart → String
  | .root => "/"
  | .current => "."
  | .parent => ".."
  | .name s => s

/-- A path of a file or directory. -/
structure Path where
  text : String
deriving DecidableEq, Repr, Inhabited

namespace Path

/-! ### Head and body -/

/-- The root, the starting dot of a relative path, or nothing. -/
def headOf (s : List Char) : List Char :=
  if s.head? = some '/' then ['/']
  else if s = ['.'] ∨ s.take 2 = ['.', '/'] then ['.']
  else []

/-- A segment that names nothing. -/
def isIdle (segment : List Char) : Bool := segment = [] || segment = ['.']

def head (p : Path) : List Char := headOf p.text.toList

/-- The segments after the head, idle ones included. -/
def body (p : Path) : List (List Char) :=
  splitAt '/' (p.text.toList.drop p.head.length)

/-- Segments without the idle ones at their end. -/
def dropIdle : List (List Char) → List (List Char)
  | [] => []
  | s :: rest =>
    match dropIdle rest with
    | [] => if isIdle s then [] else [s]
    | t :: ts => s :: t :: ts

/-- The path with a head and a body. -/
def ofHeadBody (head : List Char) (body : List (List Char)) : Path :=
  ⟨String.ofList (head ++ joinWith ['/'] body)⟩

/-! ### Parts -/

def isAbsolute (p : Path) : Bool := p.text.toList.head? == some '/'

def partOfSegment (s : List Char) : PathPart :=
  if s = ['.', '.'] then .parent else .name (String.ofList s)

/-- The parts of a path. -/
def parts (p : Path) : List PathPart :=
  (match p.head with
    | [] => []
    | c :: _ => [if c = '/' then .root else .current]) ++
  (p.body.filter fun s => !isIdle s).map partOfSegment

/-- The last part, if it is a name. -/
def fileName? (p : Path) : Option String :=
  match (dropIdle p.body).getLast? with
  | none => none
  | some s => if s = ['.', '.'] then none else some (String.ofList s)

/-- The path without its last part; the root and the empty path have none. -/
def parent? (p : Path) : Option Path :=
  match dropIdle p.body with
  | [] => if p.head = ['.'] then some ⟨""⟩ else none
  | s :: rest => some (ofHeadBody p.head (dropIdle (s :: rest).dropLast))

/-- The name before the last point of a file name; a point at its start does not count. -/
def stem (name : String) : String :=
  let pieces := splitAt '.' name.toList
  match pieces.dropLast with
  | [] => name
  | [[]] => name
  | front => String.ofList (joinWith ['.'] front)

/-! ### Building paths -/

/-- The path that `q` names from the directory `p`; an absolute `q` stands for itself. -/
def join (p q : Path) : Path :=
  if q.isAbsolute then q
  else if p.text.isEmpty || p.text.toList.getLast? == some '/' then ⟨p.text ++ q.text⟩
  else ⟨p.text ++ "/" ++ q.text⟩

/-- The path of a name in the directory `p`. -/
def child (p : Path) (name : String) : Path := p.join ⟨name⟩

/-- The path with another last name; a path without one gets the name appended. -/
def withFileName (p : Path) (name : String) : Path :=
  if p.fileName?.isSome then (p.parent?.getD p).child name else p.child name

/-- The path with more text at its end. -/
def append (p : Path) (suffix : String) : Path := ⟨p.text ++ suffix⟩

/-! ### Comparing paths -/

/-- Whether two paths have the same parts. -/
def same (p q : Path) : Bool := p.parts == q.parts

/-- The parts of `p` after those of `q`, if `p` begins with them. -/
def partsAfter? (p q : Path) : Option (List PathPart) :=
  if q.parts.isPrefixOf p.parts then some (p.parts.drop q.parts.length) else none

/-- Parts with separators between them. -/
def showParts (parts : List PathPart) : String :=
  String.ofList (joinWith ['/'] (parts.map fun part => part.text.toList))

end Path

end TokenSheets
