/-
TokenSheets/Shell/Run.lean

Running short shell scripts on a file tree.

A script sees its arguments, changes the tree through a handful of common
commands, writes to its two outputs, and ends with a status or by a signal.
Substituted scripts are run in turn; a budget that the length of the script
covers bounds how deep they lie in one another.
-/
import TokenSheets.Shell.Syntax
import TokenSheets.FileTree.Operations
import TokenSheets.Text.Utf8
import TokenSheets.Json.Value

namespace TokenSheets.Shell

/-! ### State -/

/-- How a script stops before its end. -/
inductive Ending where
  | exit (status : Nat)
  | signal
deriving DecidableEq, Repr

structure State where
  tree : FileTree
  /-- The name of the script and its arguments. -/
  arguments : List String
  assigned : Table String
  status : Nat
  out : List UInt8
  err : List UInt8
  /-- Whether a failing command ends the script. -/
  strict : Bool

/-- Where an output goes. -/
inductive Sink where
  | out
  | err
  | file (path : Path)
  | nowhere
deriving DecidableEq, Repr

/-- What a command did. -/
structure Effect where
  tree : FileTree
  status : Nat
  out : List UInt8
  err : List UInt8

def bytesOf (s : String) : List UInt8 := s.toUTF8.toList

def pathOf (s : String) : Path := ⟨s⟩

def succeed (t : FileTree) : Effect := ⟨t, 0, [], []⟩

def say (t : FileTree) (s : List UInt8) : Effect := ⟨t, 0, s, []⟩

def complain (t : FileTree) (status : Nat) (s : String) : Effect :=
  ⟨t, status, [], bytesOf (s ++ "\n")⟩

/-- The words of an error without its number. -/
def reason (e : Errno) : String :=
  String.ofList (joinWith [' ', '(']
    ((e.message.splitOn " (").dropLast.map String.toList))

/-! ### Printing -/

/-- The value of up to so many octal digits, and the rest. -/
def octal : Nat → Nat → List Char → Nat × List Char
  | 0, n, s => (n, s)
  | _ + 1, n, [] => (n, [])
  | k + 1, n, c :: rest =>
    if '0' ≤ c ∧ c ≤ '7' then octal k (8 * n + (c.toNat - 48)) rest else (n, c :: rest)

/-- The byte or bytes of an escape whose backslash is taken, and the rest. -/
def escape (s : List Char) : List UInt8 × List Char :=
  match s with
  | 'n' :: rest => ([10], rest)
  | 't' :: rest => ([9], rest)
  | 'r' :: rest => ([13], rest)
  | 'a' :: rest => ([7], rest)
  | 'b' :: rest => ([8], rest)
  | 'f' :: rest => ([12], rest)
  | 'v' :: rest => ([11], rest)
  | '\\' :: rest => ([92], rest)
  | c :: rest =>
    if '0' ≤ c ∧ c ≤ '7' then
      let (n, rest) := octal 3 0 (c :: rest)
      ([UInt8.ofNat n], rest)
    else (92 :: bytesOf (String.singleton c), rest)
  | [] => ([92], [])

/-- A text with its escapes. -/
def unescape : Nat → List Char → List UInt8
  | 0, _ => []
  | _ + 1, [] => []
  | fuel + 1, '\\' :: rest =>
    let (bytes, rest) := escape rest
    bytes ++ unescape fuel rest
  | fuel + 1, c :: rest => bytesOf (String.singleton c) ++ unescape fuel rest

/-- One pass of a format over its arguments: what is printed and which arguments are left. -/
def formatOnce : Nat → List Char → List String → List UInt8 × List String
  | 0, _, args => ([], args)
  | _ + 1, [], args => ([], args)
  | fuel + 1, '%' :: '%' :: rest, args =>
    let (bytes, left) := formatOnce fuel rest args
    (37 :: bytes, left)
  | fuel + 1, '%' :: c :: rest, args =>
    let arg := args.headD ""
    let shown :=
      if c = 's' then bytesOf arg
      else if c = 'b' then unescape arg.length.succ arg.toList
      else if c = 'c' then bytesOf (String.ofList (arg.toList.take 1))
      else if c = 'd' || c = 'i' then bytesOf (toString (arg.toInt?.getD 0))
      else 37 :: bytesOf (String.singleton c)
    let (bytes, left) := formatOnce fuel rest (args.drop 1)
    (shown ++ bytes, left)
  | fuel + 1, '\\' :: rest, args =>
    let (shown, rest) := escape rest
    let (bytes, left) := formatOnce fuel rest args
    (shown ++ bytes, left)
  | fuel + 1, c :: rest, args =>
    let (bytes, left) := formatOnce fuel rest args
    (bytesOf (String.singleton c) ++ bytes, left)

/-- A format over its arguments, again as long as arguments are left. -/
def format : Nat → List Char → List String → List UInt8
  | 0, _, _ => []
  | fuel + 1, f, args =>
    let (bytes, left) := formatOnce f.length.succ f args
    if left.isEmpty || left.length = args.length then bytes else bytes ++ format fuel f left

/-! ### Commands on files -/

/-- The file that a copy is written to: inside a directory under its own name. -/
def destination (t : FileTree) (source target : Path) : Path :=
  if t.isDirectory target then target.child (source.fileName?.getD source.text) else target

def copyFile (t : FileTree) (source target : Path) : Effect :=
  match t.fileBytes source with
  | .error .isDirectory =>
    complain t 1 ("cp: -r not specified; omitting directory '" ++ source.text ++ "'")
  | .error e => complain t 1 ("cp: cannot stat '" ++ source.text ++ "': " ++ reason e)
  | .ok contents =>
    let target := destination t source target
    match t.writeFile target contents with
    | .ok t => succeed t
    | .error e =>
      complain t 1 ("cp: cannot create regular file '" ++ target.text ++ "': " ++ reason e)

def moveFile (t : FileTree) (source target : Path) : Effect :=
  let target := destination t source target
  match t.rename source target with
  | .ok t => succeed t
  | .error e => complain t 1 ("mv: cannot move '" ++ source.text ++ "' to '" ++ target.text ++
      "': " ++ reason e)

/-- Removes one path, with everything below it if `deep`; without complaint if `force`. -/
def removePath (t : FileTree) (deep force : Bool) (p : Path) : Effect :=
  match t.removeFile p with
  | .ok t => succeed t
  | .error .notFound =>
    if force then succeed t
    else complain t 1 ("rm: cannot remove '" ++ p.text ++ "': No such file or directory")
  | .error .isDirectory =>
    if deep then
      match t.removeDirectory p with
      | .ok t => succeed t
      | .error e => complain t 1 ("rm: cannot remove '" ++ p.text ++ "': " ++ reason e)
    else complain t 1 ("rm: cannot remove '" ++ p.text ++ "': Is a directory")
  | .error e => complain t 1 ("rm: cannot remove '" ++ p.text ++ "': " ++ reason e)

def makePath (t : FileTree) (parents : Bool) (p : Path) : Effect :=
  if parents then
    match t.createDirectories p with
    | (.ok (), t) => succeed t
    | (.error e, t) =>
      complain t 1 ("mkdir: cannot create directory '" ++ p.text ++ "': " ++ reason e)
  else
    match t.makeDirectory p with
    | .ok t => succeed t
    | .error e => complain t 1 ("mkdir: cannot create directory '" ++ p.text ++ "': " ++ reason e)

def showFile (t : FileTree) (p : Path) : Effect :=
  match t.fileBytes p with
  | .ok contents => say t contents.toList
  | .error e => complain t 1 ("cat: " ++ p.text ++ ": " ++ reason e)

def touchFile (t : FileTree) (p : Path) : Effect :=
  if t.exists? p then succeed t
  else
    match t.writeFile p ByteArray.empty with
    | .ok t => succeed t
    | .error e => complain t 1 ("touch: cannot touch '" ++ p.text ++ "': " ++ reason e)

/-- One effect after another; the status is that of the last one that failed. -/
def inTurn (t : FileTree) (f : FileTree → String → Effect) : List String → Effect
  | [] => succeed t
  | a :: as =>
    let first := f t a
    let rest := inTurn first.tree f as
    ⟨rest.tree, if rest.status = 0 then first.status else rest.status, first.out ++ rest.out,
      first.err ++ rest.err⟩

/-- The directory that a path is in, as text. -/
def directoryName (s : String) : String :=
  match (pathOf s).parent? with
  | none => if s.isEmpty then "." else "/"
  | some p => if p.text.isEmpty then "." else p.text

/-- Whether a test holds. -/
def test (t : FileTree) : List String → Bool
  | ["-e", p] => t.exists? (pathOf p)
  | ["-f", p] => t.isFile (pathOf p)
  | ["-d", p] => t.isDirectory (pathOf p)
  | ["-s", p] => (t.fileBytes (pathOf p)).toOption.any fun contents => contents.size != 0
  | ["-n", s] => !s.isEmpty
  | ["-z", s] => s.isEmpty
  | [a, "=", b] => a == b
  | [a, "!=", b] => a != b
  | [a, "-eq", b] => a.toInt? == b.toInt?
  | [a, "-ne", b] => a.toInt? != b.toInt?
  | "!" :: rest => !test t rest
  | [s] => !s.isEmpty
  | _ => false

/-- The letters of the options that arguments begin with, and the arguments after them. -/
def options : List String → List Char × List String
  | [] => ([], [])
  | a :: rest =>
    match a.toList with
    | '-' :: c :: cs =>
      if a = "--" then ([], rest) else (c :: cs ++ (options rest).1, (options rest).2)
    | _ => ([], a :: rest)

/-- A command that neither ends the script nor looks at its state. -/
def runCommand (script : String) (t : FileTree) (name : String) (args : List String) : Effect :=
  let (flags, paths) := options args
  if name = ":" ∨ name = "true" ∨ name = "sleep" ∨ name = "chmod" ∨ name = "export" then succeed t
  else if name = "false" then ⟨t, 1, [], []⟩
  else if name = "echo" then
    let (ending, args) := if args.head? = some "-n" then ([], args.drop 1) else ([10], args)
    let text := " ".intercalate args
    say t (unescape text.length.succ text.toList ++ ending)
  else if name = "printf" then
    match args with
    | [] => complain t 2 "printf: usage: printf format [arg ...]"
    | f :: rest => say t (format rest.length.succ f.toList rest)
  else if name = "cat" then inTurn t (fun t p => showFile t (pathOf p)) paths
  else if name = "touch" then inTurn t (fun t p => touchFile t (pathOf p)) paths
  else if name = "rm" then
    let deep := flags.contains 'r' || flags.contains 'R'
    inTurn t (fun t p => removePath t deep (flags.contains 'f') (pathOf p)) paths
  else if name = "mkdir" then
    inTurn t (fun t p => makePath t (flags.contains 'p') (pathOf p)) paths
  else if name = "cp" ∨ name = "mv" then
    match paths.getLast? with
    | none => complain t 1 (name ++ ": missing file operand")
    | some target =>
      let move := fun t p =>
        if name = "cp" then copyFile t (pathOf p) (pathOf target)
        else moveFile t (pathOf p) (pathOf target)
      inTurn t move paths.dropLast
  else if name = "dirname" then
    say t (paths.flatMap fun p => bytesOf (directoryName p ++ "\n"))
  else if name = "basename" then
    say t (bytesOf (((pathOf (paths.headD "")).fileName?.getD (paths.headD "")) ++ "\n"))
  else if name = "test" then ⟨t, if test t args then 0 else 1, [], []⟩
  else if name = "[" then
    if args.getLast? = some "]" then ⟨t, if test t args.dropLast then 0 else 1, [], []⟩
    else complain t 2 (script ++ ": 1: [: missing ]")
  else complain t 127 (script ++ ": 1: " ++ name ++ ": not found")

/-! ### Expansion -/

/-- The value of a parameter outside quotes and lists. -/
def parameter (s : State) (name : String) : String :=
  match name.toNat? with
  | some n => s.arguments.getD n ""
  | none =>
    if name = "#" then toString (s.arguments.length - 1)
    else if name = "?" then toString s.status
    else if name = "@" ∨ name = "*" then " ".intercalate (s.arguments.drop 1)
    else if name = "$" then "1"
    else (s.assigned.get? name).getD ""

/-- A field under construction: the finished fields, and the open one if there is one. -/
structure Fields where
  done : List String
  current : Option (List Char)

/-- Adds text that is not split. -/
def Fields.glue (f : Fields) (s : List Char) : Fields :=
  { f with current := some (f.current.getD [] ++ s) }

/-- Ends the open field. -/
def Fields.close (f : Fields) : Fields :=
  match f.current with
  | none => f
  | some s => ⟨f.done ++ [String.ofList s], none⟩

/-- Adds text that is split at blanks. -/
def Fields.split (f : Fields) : List Char → Fields
  | [] => f
  | c :: cs =>
    if c = ' ' || c = '\t' || c = '\n' then Fields.split f.close cs
    else Fields.split (f.glue [c]) cs

/-- Adds the arguments, each one a field of its own. -/
def Fields.each (f : Fields) : List String → Fields
  | [] => f
  | [a] => f.glue a.toList
  | a :: b :: rest => Fields.each (f.glue a.toList).close (b :: rest)

/-- A text without the line feeds it ends with. -/
def dropLineFeeds (s : List Char) : List Char := (s.reverse.dropWhile (· = '\n')).reverse

/-- What a program leaves. -/
structure Outcome where
  tree : FileTree
  /-- None if a signal ended the program. -/
  status : Option Nat
  out : List UInt8
  err : List UInt8

/-- What an assignment in front of a command names. -/
def assignment? (field : String) : Option (String × String) :=
  let name := field.toList.takeWhile (· ≠ '=')
  if name.length < field.length ∧ name ≠ [] ∧ name.all (fun c => c.isAlphanum || c = '_') then
    some (String.ofList name, String.ofList (field.toList.drop (name.length + 1)))
  else none

/-! ### Scripts -/

/-- Sends bytes to a sink. -/
def State.send (s : State) (sink : Sink) (bytes : List UInt8) : State :=
  match sink with
  | .out => { s with out := s.out ++ bytes }
  | .err => { s with err := s.err ++ bytes }
  | .nowhere => s
  | .file p =>
    match s.tree.fileBytes p with
    | .error _ => s
    | .ok before =>
      match s.tree.writeFile p (before.toList ++ bytes).toByteArray with
      | .ok t => { s with tree := t }
      | .error _ => s

/-- Runs the arguments of a simple command. -/
def runFields (s : State) (fields : List String) (outSink errSink : Sink) : State × Option Ending :=
  match fields with
  | [] => ({ s with status := 0 }, none)
  | name :: args =>
    match assignment? name, args with
    | some (variable_, value), [] =>
      ({ s with assigned := s.assigned.insert variable_ value, status := 0 }, none)
    | _, _ =>
      if name = "exit" then
        let status := match args with
          | [] => s.status
          | a :: _ => a.toNat?.getD 2 % 256
        ({ s with status := status }, some (.exit status))
      else if name = "kill" then ({ s with status := 0 }, some .signal)
      else if name = "shift" then
        ({ s with arguments := s.arguments.take 1 ++ s.arguments.drop 2, status := 0 }, none)
      else if name = "set" then
        ({ s with strict := s.strict || (options args).1.contains 'e', status := 0 }, none)
      else
        let effect := runCommand (s.arguments.headD "sh") s.tree name args
        let s := { s with tree := effect.tree, status := effect.status }
        ((s.send outSink effect.out).send errSink effect.err, none)

mutual

/-- The fields of a word. -/
def expand (fuel : Nat) (s : State) (w : Word) (f : Fields) : State × Fields :=
  match w with
  | [] => (s, f)
  | .text t quoted :: rest =>
    expand fuel s rest (if t.isEmpty && !quoted then f else f.glue t)
  | .parameter name quoted :: rest =>
    if name = "@" ∧ quoted = true then expand fuel s rest (f.each (s.arguments.drop 1))
    else
      let value := (parameter s name).toList
      expand fuel s rest (if quoted then f.glue value else f.split value)
  | .script inner quoted :: rest =>
    match fuel with
    | 0 => (s, f)
    | fuel + 1 =>
      let o := runScript fuel inner { s with out := [] }
      let value := dropLineFeeds (lossyText o.out)
      expand (fuel + 1) { s with tree := o.tree, err := o.err, status := o.status.getD 137 } rest
        (if quoted then f.glue value else f.split value)
termination_by (fuel, 1, w.length)

/-- The fields of words. -/
def expandAll (fuel : Nat) (s : State) (ws : List Word) : State × List String :=
  match ws with
  | [] => (s, [])
  | w :: rest =>
    let (s, f) := expand fuel s w ⟨[], none⟩
    let (s, fields) := expandAll fuel s rest
    (s, f.close.done ++ fields)
termination_by (fuel, 2, ws.length)

/-- Opens redirections in order; `none` if one cannot be opened. -/
def redirect (fuel : Nat) (s : State) (rs : List Redirection) (outSink errSink : Sink) :
    State × Option (Sink × Sink) :=
  match rs with
  | [] => (s, some (outSink, errSink))
  | .read _ :: rest => redirect fuel s rest outSink errSink
  | .duplicate fd source :: rest =>
    let sink := if source = 2 then errSink else outSink
    if fd = 2 then redirect fuel s rest outSink sink else redirect fuel s rest sink errSink
  | .write fd w :: rest =>
    let (s, fields) := expandAll fuel s [w]
    let name := fields.headD ""
    let target : Option (State × Sink) :=
      if name = "/dev/null" then some (s, .nowhere)
      else
        match s.tree.writeFile (pathOf name) ByteArray.empty with
        | .ok t => some ({ s with tree := t }, .file (pathOf name))
        | .error _ => none
    match target with
    | none =>
      let words := s.arguments.headD "sh" ++ ": 1: cannot create " ++ name ++ "\n"
      ({ s with status := 2, err := s.err ++ bytesOf words }, none)
    | some (s, sink) =>
      if fd = 2 then redirect fuel s rest outSink sink else redirect fuel s rest sink errSink
  | .append fd w :: rest =>
    let (s, fields) := expandAll fuel s [w]
    let name := fields.headD ""
    let target : Option (State × Sink) :=
      if name = "/dev/null" then some (s, .nowhere)
      else if s.tree.isFile (pathOf name) then some (s, .file (pathOf name))
      else
        match s.tree.writeFile (pathOf name) ByteArray.empty with
        | .ok t => some ({ s with tree := t }, .file (pathOf name))
        | .error _ => none
    match target with
    | none =>
      let words := s.arguments.headD "sh" ++ ": 1: cannot create " ++ name ++ "\n"
      ({ s with status := 2, err := s.err ++ bytesOf words }, none)
    | some (s, sink) =>
      if fd = 2 then redirect fuel s rest outSink sink else redirect fuel s rest sink errSink
termination_by (fuel, 3, rs.length)

/-- Runs steps in order. -/
def runSteps (fuel : Nat) (s : State) (ss : List Step) : State × Option Ending :=
  match ss with
  | [] => (s, none)
  | step :: rest =>
    let due := match step.connective with
      | .always => true
      | .ifSuccess => s.status = 0
      | .ifFailure => s.status ≠ 0
    if !due then runSteps fuel s rest
    else
      let (s, fields) := expandAll fuel s step.command.words
      match redirect fuel s step.command.redirections .out .err with
      | (s, none) =>
        if fields.head? = some ":" then (s, some (.exit 2)) else runSteps fuel s rest
      | (s, some (outSink, errSink)) =>
        match runFields s fields outSink errSink with
        | (s, some ending) => (s, some ending)
        | (s, none) =>
          let s := if step.negated then { s with status := if s.status = 0 then 1 else 0 } else s
          let isLast := match rest.head? with
            | none => true
            | some next => next.connective = .always
          if s.strict && isLast && !step.negated && s.status != 0 then (s, some (.exit s.status))
          else runSteps fuel s rest
termination_by (fuel, 4, ss.length)

/-- Runs a script to its end. -/
def runScript (fuel : Nat) (script : List Char) (s : State) : Outcome :=
  match parse script with
  | none =>
    ⟨s.tree, some 2, s.out, s.err ++ bytesOf (s.arguments.headD "sh" ++ ": 1: Syntax error\n")⟩
  | some ss =>
    match runSteps fuel s ss with
    | (s, none) => ⟨s.tree, some s.status, s.out, s.err⟩
    | (s, some (.exit n)) => ⟨s.tree, some n, s.out, s.err⟩
    | (s, some .signal) => ⟨s.tree, none, s.out, s.err⟩
termination_by (fuel, 5, 0)

end

/-- Runs a script with its name and arguments on a tree. -/
def run (script : List Char) (arguments : List String) (t : FileTree) : Outcome :=
  runScript script.length.succ script ⟨t, arguments, [], 0, [], [], false⟩

end TokenSheets.Shell
