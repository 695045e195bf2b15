/-
TokenSheets/Shell/Program.lean

Starting programs by name.

A program is an executable file, given by a path or looked for by its name in
the usual directories.  A script names its interpreter in its first line; the
interpreter is started with the script as its argument, and may be a script
itself.  The chain ends at the shell or at `env`, which are told by their
contents.  Any other file without an interpreter line is no program.
-/
import TokenSheets.Shell.Run
import TokenSheets.Text.Blank

namespace TokenSheets.Program

open Shell (Outcome)

/-! ### Programs that are always there -/

/-- The contents of the shell itself. -/
def shellImage : ByteArray := "\x7fELF sh\n".toUTF8

/-- The contents of the program that looks for another one. -/
def envImage : ByteArray := "\x7fELF env\n".toUTF8

/-- The programs that scripts and users rely on, with their paths. -/
def basics : List (Path × ByteArray) :=
  [(⟨"/bin/sh"⟩, shellImage), (⟨"/bin/dash"⟩, shellImage), (⟨"/bin/bash"⟩, shellImage),
   (⟨"/usr/bin/sh"⟩, shellImage), (⟨"/usr/bin/bash"⟩, shellImage), (⟨"/usr/bin/env"⟩, envImage),
   (⟨"/bin/true"⟩, "#!/bin/sh\nexit 0\n".toUTF8), (⟨"/bin/false"⟩, "#!/bin/sh\nexit 1\n".toUTF8),
   (⟨"/usr/bin/true"⟩, "#!/bin/sh\nexit 0\n".toUTF8),
   (⟨"/usr/bin/false"⟩, "#!/bin/sh\nexit 1\n".toUTF8)]

/-- The entries from the root down to a program. -/
def entriesOf (program : Path × ByteArray) : List (Place × Entry) :=
  let place := program.1.steps
  (List.range place.length).map fun n =>
    (place.take (n + 1),
      if n + 1 = place.length then .file program.2 true else .directory)

/-- The tree with the basic programs where nothing else is. -/
def install (t : FileTree) : FileTree :=
  (basics.flatMap entriesOf).foldl
    (fun t e => if (t.find? e.1).isSome then t else t.put e.1 e.2) t

/-! ### Finding a program -/

/-- Where a program is usually looked for that is given by its name alone. -/
def usualDirectories : List Path :=
  [⟨"/usr/local/sbin"⟩, ⟨"/usr/local/bin"⟩, ⟨"/usr/sbin"⟩, ⟨"/usr/bin"⟩, ⟨"/sbin"⟩, ⟨"/bin"⟩]

/-- The directories that a colon-separated list gives. -/
def directoriesOf (list : String) : List Path :=
  (splitAt ':' list.toList).map fun s => ⟨String.ofList s⟩

/-- The contents of an executable file. -/
def executable (t : FileTree) (p : Path) : Except Errno ByteArray := do
  match ← t.stat p with
  | .file contents true => return contents
  | _ => throw .accessDenied

/-- The first executable file of a name; a file that may not be executed is only remembered. -/
def search (t : FileTree) (name : String) : List Path → Errno → Except Errno (Path × ByteArray)
  | [], e => .error e
  | directory :: rest, e =>
    let p := directory.child name
    match executable t p with
    | .ok contents => .ok (p, contents)
    | .error .accessDenied => search t name rest .accessDenied
    | .error _ => search t name rest e

/-- The file of a program, which a name alone leaves to the given directories. -/
def find (t : FileTree) (directories : List Path) (program : String) :
    Except Errno (Path × ByteArray) :=
  if program.isEmpty then .error .notFound
  else if program.toList.contains '/' then
    (executable t ⟨program⟩).map fun contents => (⟨program⟩, contents)
  else search t program directories .notFound

/-! ### Running it -/

/-- The interpreter in the first line of a script, and the one argument it is given there. -/
def interpreter? (contents : ByteArray) : Option (String × Option String) :=
  match lossyText (contents.toList.takeWhile (· ≠ 0x0A)) with
  | '#' :: '!' :: line =>
    let isGap := fun c : Char => c = ' ' || c = '\t'
    let line := line.dropWhile isGap
    let name := line.takeWhile fun c => !isGap c
    let argument := trim (line.drop name.length)
    if name.isEmpty then none
    else some (String.ofList name, if argument.isEmpty then none else some (String.ofList argument))
  | _ => none

/-- The shell with its arguments: options, then the script and what it is given. -/
def runShell (t : FileTree) (args : List String) : Outcome :=
  let (flags, rest) := Shell.options args
  let start := if flags.contains 'e' then "set -e\n".toList else []
  if flags.contains 'c' then
    match rest with
    | [] => ⟨t, some 2, [], Shell.bytesOf "sh: 0: -c requires an argument\n"⟩
    | script :: params =>
      Shell.run (start ++ script.toList) (if params.isEmpty then ["sh"] else params) t
  else
    match rest with
    | [] => ⟨t, some 0, [], []⟩
    | script :: params =>
      match t.fileBytes ⟨script⟩ with
      | .ok contents => Shell.run (start ++ lossyText contents.toList) (script :: params) t
      | .error e =>
        ⟨t, some 2, [], Shell.bytesOf
          ("sh: 0: cannot open " ++ script ++ ": " ++ Shell.reason e ++ "\n")⟩

/-- How long a chain of interpreters may be. -/
def interpreterLimit : Nat := 5

/-- Runs an executable file. -/
def execute (directories : List Path) :
    Nat → FileTree → Path → ByteArray → List String → Except Errno Outcome
  | 0, _, _, _, _ => .error .tooManyLinks
  | fuel + 1, t, p, contents, args =>
    if contents.data == shellImage.data then .ok (runShell t args)
    else if contents.data == envImage.data then
      match args with
      | [] => .ok ⟨t, some 0, [], []⟩
      | program :: args =>
        match find t directories program with
        | .ok (p, contents) => execute directories fuel t p contents args
        | .error e =>
          .ok ⟨t, some 127, [], Shell.bytesOf
            ("env: '" ++ program ++ "': " ++ Shell.reason e ++ "\n")⟩
    else
      match interpreter? contents with
      | none => .error .noExecutable
      | some (name, argument) =>
        match executable t ⟨name⟩ with
        | .error e => .error e
        | .ok interpreter =>
          execute directories fuel t ⟨name⟩ interpreter (argument.toList ++ p.text :: args)

/-- Starts a program with its arguments. -/
def start (t : FileTree) (directories : List Path) (program : String) (args : List String) :
    Except Errno Outcome := do
  let (p, contents) ← find t directories program
  execute directories interpreterLimit t p contents args

end TokenSheets.Program
