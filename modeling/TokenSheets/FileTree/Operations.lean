/-
TokenSheets/FileTree/Operations.lean

File operations, with what each of them refuses.

An operation resolves its path to a place, looks at what is there, and gives a
new tree or an error; an operation that fails changes nothing.  Resolving walks
down from the root or from the working directory.  Everything on the way has to
be a directory, the working directory too where a name follows it; links are
followed a bounded number of times, and the last name may be missing.  A path
that ends in a separator has to name a directory.
-/
import TokenSheets.FileTree.Basic
import TokenSheets.Json.Mismatch

namespace TokenSheets

/-! ### Errors -/

/-- An error of the operating system. -/
inductive Errno where
  | notFound
  | noExecutable
  | accessDenied
  | exists
  | notDirectory
  | isDirectory
  | notEmpty
  | tooManyLinks
deriving DecidableEq, Repr

/-- The words of an error with its number. -/
def Errno.message : Errno → String
  | .notFound => "No such file or directory (os error 2)"
  | .noExecutable => "Exec format error (os error 8)"
  | .accessDenied => "Permission denied (os error 13)"
  | .exists => "File exists (os error 17)"
  | .notDirectory => "Not a directory (os error 20)"
  | .isDirectory => "Is a directory (os error 21)"
  | .notEmpty => "Directory not empty (os error 39)"
  | .tooManyLinks => "Too many levels of symbolic links (os error 40)"

/-- Why reading or writing a file did not work. -/
inductive IoError where
  | os (e : Errno)
  /-- The path names no file. -/
  | noFileName
  /-- The file is no text. -/
  | notText
  /-- The file does not hold the expected document. -/
  | notDocument (why : Json.Mismatch)
deriving DecidableEq, Repr

def IoError.message : IoError → String
  | .os e => e.message
  | .noFileName => "path has no file name"
  | .notText => "stream did not contain valid UTF-8"
  | .notDocument why => "JSON error: " ++ why.message

/-! ### Resolving paths -/

namespace Path

/-- The names, dots and double dots to walk along. -/
def steps (p : Path) : List String :=
  ((splitAt '/' p.text.toList).filter fun s => !s.isEmpty).map String.ofList

/-- Whether the path insists on a directory. -/
def endsInSlash (p : Path) : Bool := p.text.toList.getLast? == some '/'

end Path

namespace FileTree

/-- How many links are followed on one way. -/
def linkLimit : Nat := 40

/-- Walks along steps from a directory; with `follow` a link at the end is followed too.  `onLink`
goes on behind a link, with the steps that are left. -/
def walkWith (t : FileTree) (follow : Bool)
    (onLink : Place → List String → Except Errno Place) :
    Place → List String → Except Errno Place
  | from_, [] => if t.find? from_ = some .directory then .ok from_ else .error .notFound
  | from_, step :: rest =>
    if step = "." then t.walkWith follow onLink from_ rest
    else if step = ".." then t.walkWith follow onLink from_.dropLast rest
    else if t.find? from_ ≠ some .directory then .error .notFound
    else
      let next := from_ ++ [step]
      match t.find? next with
      | none => if rest.isEmpty then .ok next else .error .notFound
      | some .directory => t.walkWith follow onLink next rest
      | some (.file _ _) => if rest.isEmpty then .ok next else .error .notDirectory
      | some (.link target) =>
        if rest.isEmpty && !follow then .ok next
        else onLink (if target.isAbsolute then [] else from_) (target.steps ++ rest)

/-- Walks along steps and follows at most so many links. -/
def walk (t : FileTree) (follow : Bool) : Nat → Place → List String → Except Errno Place
  | 0 => t.walkWith follow fun _ _ => .error .tooManyLinks
  | links + 1 => t.walkWith follow (t.walk follow links)

/-- The place that a path names. -/
def locate (t : FileTree) (follow : Bool) (p : Path) : Except Errno Place :=
  if p.text.isEmpty then .error .notFound
  else t.walk (follow || p.endsInSlash) linkLimit (if p.isAbsolute then [] else t.here) p.steps

/-- What a path names, links followed. -/
def stat (t : FileTree) (p : Path) : Except Errno Entry := do
  let place ← t.locate true p
  match t.find? place with
  | none => throw .notFound
  | some (.file contents x) =>
    if p.endsInSlash then throw .notDirectory else return .file contents x
  | some e => return e

def exists? (t : FileTree) (p : Path) : Bool :=
  match t.stat p with
  | .ok _ => true
  | .error _ => false

def isFile (t : FileTree) (p : Path) : Bool :=
  match t.stat p with
  | .ok (.file _ _) => true
  | _ => false

def isDirectory (t : FileTree) (p : Path) : Bool :=
  match t.stat p with
  | .ok .directory => true
  | _ => false

/-! ### Files -/

/-- The bytes of a file. -/
def fileBytes (t : FileTree) (p : Path) : Except Errno ByteArray := do
  match ← t.stat p with
  | .file contents _ => return contents
  | _ => throw .isDirectory

/-- The text of a file. -/
def readText (t : FileTree) (p : Path) : Except IoError String := do
  let contents ← (t.fileBytes p).mapError .os
  match String.fromUTF8? contents with
  | some s => return s
  | none => throw .notText

/-- Creates a file or replaces its contents. -/
def writeFile (t : FileTree) (p : Path) (contents : ByteArray) : Except Errno FileTree := do
  let place ← t.locate true p
  match t.find? place with
  | none => if p.endsInSlash then throw .isDirectory else return t.put place (.file contents false)
  | some (.file _ x) =>
    if p.endsInSlash then throw .notDirectory else return t.put place (.file contents x)
  | some _ => throw .isDirectory

/-- Makes a file executable. -/
def allowExecution (t : FileTree) (p : Path) : Except Errno FileTree := do
  let place ← t.locate true p
  match t.find? place with
  | some (.file contents _) => return t.put place (.file contents true)
  | some _ => return t
  | none => throw .notFound

/-- Removes a file or a link. -/
def removeFile (t : FileTree) (p : Path) : Except Errno FileTree := do
  let place ← t.locate false p
  match t.find? place with
  | none => throw .notFound
  | some .directory => throw .isDirectory
  | some (.file _ _) => if p.endsInSlash then throw .notDirectory else return t.erase place
  | some (.link _) => return t.erase place

/-- Gives a file or a link another path.  A file that was there is replaced, a directory is not. -/
def rename (t : FileTree) (old new : Path) : Except Errno FileTree := do
  let source ← t.locate false old
  let target ← t.locate false new
  match t.find? source, t.find? target with
  | none, _ => throw .notFound
  | some .directory, _ => throw .isDirectory
  | some e, found =>
    if old.endsInSlash || new.endsInSlash then throw .notDirectory
    if found = some .directory then throw .isDirectory
    if source = target then return t
    return (t.erase source).put target e

/-! ### Directories and links -/

/-- Creates a directory in one that exists. -/
def makeDirectory (t : FileTree) (p : Path) : Except Errno FileTree := do
  let place ← t.locate false p
  match t.find? place with
  | some _ => throw .exists
  | none => return t.put place .directory

/-- Creates a directory and the directories leading to it; `fuel` bounds their number.  What was
created before a failure stays. -/
def makeDirectories : Nat → FileTree → Path → Except Errno Unit × FileTree
  | fuel, t, p =>
    if p.text.isEmpty then (.ok (), t)
    else
      match t.makeDirectory p with
      | .ok made => (.ok (), made)
      | .error .notFound =>
        match fuel, p.parent? with
        | fuel + 1, some parent =>
          match makeDirectories fuel t parent with
          | (.error e, t) => (.error e, t)
          | (.ok (), t) =>
            match t.makeDirectory p with
            | .ok made => (.ok (), made)
            | .error e => (if t.isDirectory p then .ok () else .error e, t)
        | _, _ => (.error .notFound, t)
      | .error e => (if t.isDirectory p then .ok () else .error e, t)

/-- Creates a directory and the directories leading to it. -/
def createDirectories (t : FileTree) (p : Path) : Except Errno Unit × FileTree :=
  makeDirectories p.text.length t p

/-- Removes a directory with everything in it; a link to one is removed itself. -/
def removeDirectory (t : FileTree) (p : Path) : Except Errno FileTree := do
  let place ← t.locate false p
  match t.find? place with
  | none => throw .notFound
  | some .directory => return t.eraseAll place
  | some (.file _ _) => throw .notDirectory
  | some (.link _) => return t.erase place

/-- Creates a link. -/
def makeLink (t : FileTree) (target p : Path) : Except Errno FileTree := do
  let place ← t.locate false p
  match t.find? place with
  | some _ => throw .exists
  | none => return t.put place (.link target)

/-- The names in a directory with their entries, sorted by name. -/
def list (t : FileTree) (p : Path) : Except Errno (List (String × Entry)) := do
  let place ← t.locate true p
  match t.find? place with
  | some .directory => return t.children place
  | some _ => throw .notDirectory
  | none => throw .notFound

/-! ### Replacing a file in one step -/

/-- The sibling that a file is written to before it takes its name. -/
def temporary (name : String) : String := "." ++ name ++ ".tmp"

/-- Writes a sibling and gives it the name of the file.  If the name cannot be taken, the sibling
is removed again; the tree after a failure is the second component. -/
def replaceFile (t : FileTree) (p : Path) (contents : ByteArray) :
    Except IoError Unit × FileTree :=
  match p.fileName? with
  | none => (.error .noFileName, t)
  | some name =>
    let sibling := p.withFileName (temporary name)
    match t.writeFile sibling contents with
    | .error e => (.error (.os e), t)
    | .ok written =>
      match written.rename sibling p with
      | .ok renamed => (.ok (), renamed)
      | .error e =>
        match written.removeFile sibling with
        | .ok removed => (.error (.os e), removed)
        | .error _ => (.error (.os e), written)

end FileTree

end TokenSheets
