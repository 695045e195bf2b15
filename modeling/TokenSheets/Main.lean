/-
TokenSheets/Main.lean

The command line program.

Everything is decided on a file tree.  This module loads what a call can look
at from the disk into a tree, and writes back what the call changed in it.
-/
import TokenSheets.CommandLine.Run

namespace TokenSheets.CommandLine

/-! ### What to load -/

/-- The variables that a call looks at. -/
def variableNames : List String := [Layout.baseVariable, "LAZIT_SASS_BIN", "PATH"]

/-- The directories in a base directory that a call works in. -/
def workingNames : List String := ["build", "sass", "public", ".public-staging"]

/-- The directories that can be the base directory. -/
def baseCandidates (i : Invocation) (cwd : Path) : List Path :=
  match i.base with
  | some base => [cwd.join base]
  | none => [cwd, (cwd.child "node_modules").child Layout.packageName]

/-- The directories and files to load. -/
def loadedPaths (i : Invocation) (cwd : Path) : List Path :=
  (baseCandidates i cwd).flatMap (fun base => workingNames.map base.child) ++
    [cwd.join (i.config.getD ⟨userConfigName⟩)]

/-- The places where the compiler program may be. -/
def programPaths (i : Invocation) (env : Environment) (cwd : Path) : List Path :=
  if i.program.toList.contains '/' then [cwd.join ⟨i.program⟩]
  else (programDirectories env).map fun directory => cwd.join (directory.child i.program)

/-! ### Loading -/

/-- The tree with directories at a place and on the way to it. -/
def putDirectories (t : FileTree) (place : Place) : FileTree :=
  (List.range place.length).foldl (fun t n => t.put (place.take (n + 1)) .directory) t

def placeText (place : Place) : String := "/" ++ "/".intercalate place

/-- Loads a file. -/
def loadFile (place : Place) (executable : Bool) (t : FileTree) : IO FileTree := do
  try
    let contents ← IO.FS.readBinFile (placeText place)
    return (putDirectories t place.dropLast).put place (.file contents executable)
  catch _ => return t

/-- Loads a directory with everything in it, or a file. -/
partial def load (place : Place) (t : FileTree) : IO FileTree := do
  try
    let found ← IO.FS.realPath (placeText place)
    if ← found.isDir then
      let names := (← found.readDir).map fun e => e.fileName
      let mut t := putDirectories t place
      for name in names do
        t ← load (place ++ [name]) t
      return t
    else loadFile place false t
  catch _ => return t

/-- The place of an absolute path, with its dots taken as they are written. -/
def placeOf (p : Path) : Place :=
  p.steps.foldl
    (fun place step =>
      if step = "." then place else if step = ".." then place.dropLast else place ++ [step])
    []

/-- Notes the directory that a base directory would be, if it is there. -/
def loadDirectory (p : Path) (t : FileTree) : IO FileTree := do
  try
    let found ← IO.FS.realPath p.text
    if ← found.isDir then return putDirectories t (placeOf p) else return t
  catch _ => return t

/-- All that an invocation can look at. -/
def loadTree (i : Invocation) (env : Environment) (cwd : Path) : IO FileTree := do
  let mut t := Program.install (putDirectories ⟨[], placeOf cwd⟩ (placeOf cwd))
  for p in baseCandidates i cwd do
    t ← loadDirectory p t
  for p in loadedPaths i cwd do
    t ← load (placeOf p) t
  for p in programPaths i env cwd do
    t ← loadFile (placeOf p) true t
  return t

/-! ### Writing back -/

/-- Removes what is no longer there and writes what is new. -/
def store (before after : FileTree) : IO Unit := do
  for (place, entry) in before.entries.reverse do
    if (after.find? place).isNone then
      match entry with
      | .directory => IO.FS.removeDirAll (placeText place)
      | _ => IO.FS.removeFile (placeText place)
  for (place, entry) in after.entries do
    if before.find? place ≠ some entry then
      match entry with
      | .directory => IO.FS.createDirAll (placeText place)
      | .file contents _ => IO.FS.writeBinFile (placeText place) contents
      | .link _ => pure ()

/-- The time of the system's clock: when a file that is new was written. -/
def now : IO Instant := do
  let (_, file) ← IO.FS.createTempFile
  let time := (← file.metadata).modified
  IO.FS.removeFile file
  return ⟨time.sec, time.nsec.toNat⟩

/-- One call of the program. -/
def call (args : List String) : IO Report := do
  let cwd : Path := ⟨toString (← IO.currentDir)⟩
  let found ← variableNames.mapM fun name => do
    return (← IO.getEnv name).map fun value => (name, value)
  let env : Environment := found.filterMap id
  match read env args with
  | .ok (.invoke i) =>
    let before ← loadTree i env cwd
    let (report, after) := invoke i env cwd (← now) before
    store before after
    return report
  | _ => return (run args env cwd .epoch ⟨[], []⟩).1

end TokenSheets.CommandLine

def main (args : List String) : IO UInt32 := do
  let report ← TokenSheets.CommandLine.call args
  (← IO.getStdout).putStr report.out
  (← IO.getStderr).putStr report.err
  return UInt32.ofNat report.status
