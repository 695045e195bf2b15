/-
TokenSheets/Compile.lean

Compiling the entry sheet and committing the result.

The compiler writes into a staging directory beside the output directory.  Only
when both the stylesheet and its source map are there, the map takes its place
and then the stylesheet, each in one step; if the second step fails, the first
one is undone.  So a failed compile leaves the previous output as it was.  The
staging directory goes in either case.
-/
import TokenSheets.FileTree.Task
import TokenSheets.Digest.Sha256
import TokenSheets.Shell.Program

namespace TokenSheets

/-- Why there is no new stylesheet. -/
inductive CompileError where
  | spawn (program : String) (source : Errno)
  /-- The compiler gave up; without a status it was stopped by a signal. -/
  | failed (status : Option Int) (stderr : String)
  | missingEntry (path : Path)
  | missingOutput (path : Path)
  | io (path : Path) (source : IoError)
deriving DecidableEq, Repr

/-- The words for how a compiler ended. -/
def statusLabel : Option Int → String
  | some code => "status " ++ toString code
  | none => "no status (terminated by signal)"

def CompileError.message : CompileError → String
  | .spawn program e => "failed to spawn " ++ program ++ ": " ++ e.message
  | .failed status stderr => "compiler exited with " ++ statusLabel status ++ ": " ++ stderr
  | .missingEntry p => "entry stylesheet not found: " ++ p.text
  | .missingOutput p => "compiler reported success but did not produce " ++ p.text
  | .io p e => "I/O error on " ++ p.text ++ ": " ++ e.message

/-- A compiler: from the entry sheet to the output stylesheet, with the source map beside it. -/
abbrev Compiler := Path → Path → Task CompileError Unit

/-- What a compile left on disk. -/
structure Artifacts where
  css : Path
  map : Path
  cssSha256 : String
  cssBytes : Nat
deriving DecidableEq, Repr

namespace Compile

/-- The source map of a stylesheet. -/
def mapPath (css : Path) : Path := css.append ".map"

/-- The directory that a path is in. -/
def outputDirectory (css : Path) : Path := css.parent?.getD ⟨"."⟩

/-- A sibling of the output directory, so that relative paths in the source map stay right. -/
def stagingDirectory (css : Path) : Path :=
  let directory := outputDirectory css
  directory.withFileName ("." ++ directory.fileName?.getD "out" ++ "-staging")

/-- An error of a file operation on a path. -/
def ioError (p : Path) (e : Errno) : CompileError := .io p (.os e)

/-- The map that is there before, if any. -/
def previousMap (t : FileTree) (p : Path) : Except CompileError (Option ByteArray) :=
  match t.fileBytes p with
  | .ok contents => .ok (some contents)
  | .error .notFound => .ok none
  | .error e => .error (ioError p e)

/-- Puts back the map that was there before, or removes the new one. -/
def restoreMap (p : Path) (previous : Option ByteArray) (t : FileTree) : FileTree :=
  match previous with
  | some contents => (t.replaceFile p contents).2
  | none =>
    match t.removeFile p with
    | .ok t => t
    | .error _ => t

/-- Gives the stylesheet and its map their places, or neither. -/
def commit (css : Path) (cssBytes mapBytes : ByteArray) : Task CompileError Artifacts := do
  let directory := outputDirectory css
  Task.perform (ioError directory) fun t => t.createDirectories directory
  let map := mapPath css
  let previous ← Task.tryLook fun t => previousMap t map
  Task.perform (.io map) fun t => t.replaceFile map mapBytes
  Task.perform (.io css) fun t =>
    match t.replaceFile css cssBytes with
    | (.ok (), t) => (.ok (), t)
    | (.error e, t) => (.error e, restoreMap map previous t)
  return ⟨css, map, Sha256.hex cssBytes.toList, cssBytes.size⟩

/-- Fails if the compiler did not make a file. -/
def requireOutput (p : Path) : Task CompileError Unit := do
  if !(← Task.look fun t => t.isFile p) then throw (.missingOutput p)

/-- Compiles into the staging directory and commits what was made there. -/
def stage (compiler : Compiler) (entry css staging : Path) : Task CompileError Artifacts := do
  match css.fileName? with
  | none => throw (.missingOutput css)
  | some name =>
    let stagedCss := staging.child name
    let stagedMap := mapPath stagedCss
    compiler entry stagedCss
    requireOutput stagedCss
    requireOutput stagedMap
    let cssBytes ← Task.tryLook fun t => (t.fileBytes stagedCss).mapError (ioError stagedCss)
    let mapBytes ← Task.tryLook fun t => (t.fileBytes stagedMap).mapError (ioError stagedMap)
    commit css cssBytes mapBytes

/-- Removes a directory if that works. -/
def discard (p : Path) (t : FileTree) : FileTree :=
  match t.removeDirectory p with
  | .ok t => t
  | .error _ => t

/-- Makes an empty staging directory for an entry sheet that is there. -/
def prepare (entry staging : Path) : Task CompileError Unit := do
  if !(← Task.look fun t => t.isFile entry) then throw (.missingEntry entry)
  if ← Task.look fun t => t.exists? staging then
    Task.change fun t => (t.removeDirectory staging).mapError (ioError staging)
  Task.perform (ioError staging) fun t => t.createDirectories staging

/-- Compiles an entry sheet into a stylesheet. -/
def run (compiler : Compiler) (entry css : Path) : Task CompileError Artifacts := do
  let staging := stagingDirectory css
  prepare entry staging
  let (r, t) := (stage compiler entry css staging).on (← get)
  set (discard staging t)
  match r with
  | .ok artifacts => return artifacts
  | .error e => throw e

end Compile

/-! ### Compilers -/

namespace Compiler

/-- The arguments that a compiler program is started with. -/
def arguments (entry css : Path) : List String :=
  [entry.text, css.text, "--style=compressed", "--source-map", "--no-error-css"]

/-- Starts a program, which a name alone leaves to the given directories.  What it prints counts
only if it fails. -/
def program (directories : List Path) (name : String) : Compiler := fun entry css => do
  match Program.start (← get) directories name (arguments entry css) with
  | .error e => throw (.spawn name e)
  | .ok outcome =>
    set outcome.tree
    if outcome.status ≠ some 0 then
      throw (.failed (outcome.status.map Int.ofNat) (String.ofList (trim (lossyText outcome.err))))

/-! #### Without a program -/

/-- Writes a text file. -/
def write (p : Path) (text : String) : Task CompileError Unit :=
  Task.change fun t => (t.writeFile p text.toUTF8).mapError (Compile.ioError p)

/-- A stylesheet of one class. -/
def sampleCss : String := ".lz-display-block\x7bdisplay:block\x7d"

/-- A source map without mappings. -/
def emptyMap : String := "\x7b\"version\":3,\"mappings\":\"\"\x7d"

/-- Always writes the same stylesheet and an empty map. -/
def constant (css : String) : Compiler := fun _ out => do
  write out css
  write (Compile.mapPath out) emptyMap

/-- Always gives up without writing anything. -/
def failing (status : Int) (stderr : String) : Compiler := fun _ _ =>
  throw (.failed (some status) stderr)

/-- Writes a stylesheet and forgets the map. -/
def withoutMap : Compiler := fun _ out => write out sampleCss

end Compiler

end TokenSheets
