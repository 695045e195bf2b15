/-
TokenSheets/Fragment/Store.lean

Fragments on disk.

Writing leaves a file alone that already has the right text, so that a rebuild
touches only what changed.  Pruning removes what earlier runs generated and
this one does not: files of a generated name that begin with the banner.  A
file that somebody wrote by hand has no banner and stays.
-/
import TokenSheets.Fragment.Basic
import TokenSheets.FileTree.Task

namespace TokenSheets

/-- Why fragments could not be written, found or removed. -/
inductive EmitError where
  | write (path : Path) (source : IoError)
  | remove (path : Path) (source : IoError)
  | walk (path : Path) (source : IoError)
deriving DecidableEq, Repr

def EmitError.message : EmitError → String
  | .write p e => "failed to write " ++ p.text ++ ": " ++ e.message
  | .remove p e => "failed to remove stale fragment " ++ p.text ++ ": " ++ e.message
  | .walk p e => "Walk error: IO error for operation on " ++ p.text ++ ": " ++ e.message

/-- What writing a fragment did. -/
inductive WriteOutcome where
  | written
  | unchanged
deriving DecidableEq, Repr

namespace Fragment

/-! ### Writing -/

/-- Writes one fragment below a root directory. -/
def write (root : Path) (f : Fragment) : Task EmitError WriteOutcome := do
  let path := root.join f.path
  let existing ← Task.look fun t => (t.readText path).toOption
  if existing = some f.contents then return .unchanged
  let directory := path.parent?.getD root
  Task.perform (fun e => .write path (.os e)) fun t => t.createDirectories directory
  Task.perform (.write path) fun t => t.replaceFile path f.contents.toUTF8
  return .written

/-- Writes fragments in order, up to the first failure. -/
def writeAll (root : Path) : List Fragment → Task EmitError (List WriteOutcome)
  | [] => return []
  | f :: fs => do
    let outcome ← f.write root
    let outcomes ← writeAll root fs
    return outcome :: outcomes

/-! ### Pruning -/

/-- The comment line that begins a generated file. -/
def bannerLine : String := "// " ++ banner

/-- Whether the contents of a file begin with the banner. -/
def isGenerated (contents : ByteArray) : Bool :=
  match String.fromUTF8? (contents.toList.takeWhile (· ≠ 0x0A)).toByteArray with
  | none => false
  | some line => trimEnd line.toList == bannerLine.toList

/-- Whether a file name is that of a generated sheet. -/
def isSheetName (name : String) : Bool :=
  name.toList.head? == some '_' && ".scss".toList.isSuffixOf name.toList

/-- The files of a directory that pruning removes, by name. -/
def stale (directory : Path) (keep : List Path) (found : List (String × Entry)) : List Path :=
  found.filterMap fun e =>
    match e.2 with
    | .file contents _ =>
      let path := directory.child e.1
      if isSheetName e.1 && !(keep.any fun k => k.same path) && isGenerated contents then some path
      else none
    | _ => none

/-- Removes files in order, up to the first failure. -/
def removeAll : List Path → Task EmitError Unit
  | [] => return ()
  | p :: ps => do
    Task.change fun t => (t.removeFile p).mapError fun e => .remove p (.os e)
    removeAll ps

/-- Removes the generated files directly in a directory below a root that no kept fragment is
written to, and gives their paths. -/
def prune (root : Path) (directory : String) (keep : List Fragment) :
    Task EmitError (List Path) := do
  let target := root.child directory
  let isThere ← Task.look fun t => t.isDirectory target
  if !isThere then return []
  let found ← Task.tryLook fun t => (t.list target).mapError fun e => .walk target (.os e)
  let gone := stale target (keep.map fun f => root.join f.path) found
  removeAll gone
  return gone

end Fragment

end TokenSheets
