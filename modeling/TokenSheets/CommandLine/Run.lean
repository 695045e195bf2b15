/-
TokenSheets/CommandLine/Run.lean

What the commands do.

A command works on the file tree and reports what to print and the status to
end with.  Failures go to the error output, after the word `Error`; the
configuration is printed even if it turns out not to be valid, so that it can
be looked at.
-/
import TokenSheets.CommandLine.Arguments
import TokenSheets.Pipeline

namespace TokenSheets.CommandLine

/-- What the program leaves for its caller. -/
structure Report where
  status : Nat
  out : String
  err : String
deriving DecidableEq, Repr

/-- A run that went well and has one thing to print. -/
def success (line : String) : Report := ⟨0, line ++ "\n", ""⟩

/-- The words of a failure. -/
def errorLine (message : String) : String := "Error: " ++ message ++ "\n"

def failure (status : Nat) (message : String) : Report := ⟨status, "", errorLine message⟩

def pipelineFailure (e : PipelineError) : Report := failure e.exitCode e.message

/-! ### Commands -/

/-- Generates, and compiles unless told otherwise. -/
def runPipeline (p : Pipeline) (compiler : Compiler) (now : Instant) (t : FileTree) :
    Report × FileTree :=
  match (p.run compiler now).on t with
  | (.ok summary, t) => (success summary.line, t)
  | (.error e, t) => (pipelineFailure e, t)

/-- Prints the effective configuration. -/
def showConfig (p : Pipeline) (t : FileTree) : Report :=
  match p.resolve t with
  | .error e => pipelineFailure e
  | .ok effective =>
    match effective.typed with
    | .ok _ => success effective.json
    | .error e =>
      let e := PipelineError.config e
      ⟨e.exitCode, effective.json ++ "\n", errorLine e.message⟩

/-- Writes the bundled document as the user document. -/
def writeDefaults (p : Path) (force : Bool) (t : FileTree) : Report × FileTree :=
  if t.exists? p && !force then
    (failure 1 (p.text ++ " already exists (use --force to overwrite)"), t)
  else
    match t.replaceFile p bundledText.toUTF8 with
    | (.ok (), t) => (success ("Wrote " ++ p.text), t)
    | (.error e, t) => (failure 1 ("failed to write " ++ p.text ++ ": " ++ e.message), t)

/-! ### The program -/

def version : String := "lazit 0.1.0"

def helpText : String :=
  "Generate and compile utility stylesheets from design tokens\n\n" ++
  "Usage: lazit [OPTIONS] [COMMAND]\n\n" ++
  "Commands:\n" ++
  "  build     Generate the stylesheet sources and compile them (default)\n" ++
  "  generate  Generate the stylesheet sources without compiling\n" ++
  "  config    Print the effective configuration as JSON\n" ++
  "  init      Write the default configuration to lazit.conf.json\n" ++
  "  help      Print this message\n\n" ++
  "Options:\n" ++
  "      --base <BASE>          Package base directory\n" ++
  "  -c, --config <CONFIG>      User configuration file\n" ++
  "      --sass-bin <SASS_BIN>  sass executable\n" ++
  "  -v, --verbose              More log output\n" ++
  "  -h, --help                 Print help\n" ++
  "  -V, --version              Print version"

/-- The directories that the environment names for programs. -/
def programDirectories (env : Environment) : List Path :=
  match env.value? "PATH" with
  | none => Program.usualDirectories
  | some list => Program.directoriesOf list

/-- Does what an invocation asks for. -/
def invoke (i : Invocation) (env : Environment) (cwd : Path) (now : Instant) (t : FileTree) :
    Report × FileTree :=
  let pipeline : Pipeline := ⟨Layout.detect t cwd i.base, i.config, false⟩
  let compiler := Compiler.program (programDirectories env) i.program
  match i.command with
  | .build => runPipeline pipeline compiler now t
  | .generate => runPipeline { pipeline with generateOnly := true } compiler now t
  | .config => (showConfig pipeline t, t)
  | .init force => writeDefaults pipeline.userConfigPath force t

/-- Does what the arguments ask for. -/
def perform (r : Request) (env : Environment) (cwd : Path) (now : Instant) (t : FileTree) :
    Report × FileTree :=
  match r with
  | .version => (success version, t)
  | .help => (success helpText, t)
  | .invoke i => invoke i env cwd now t

/-- A whole call of the program. -/
def run (args : List String) (env : Environment) (cwd : Path) (now : Instant) (t : FileTree) :
    Report × FileTree :=
  match read env args with
  | .error e => (⟨2, "", "usage: " ++ e.message ++ "\n"⟩, t)
  | .ok r => perform r env cwd now t

end TokenSheets.CommandLine
