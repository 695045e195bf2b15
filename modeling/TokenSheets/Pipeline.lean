/-
TokenSheets/Pipeline.lean

One run from the configuration to the summary.

Nothing is written before the whole configuration has been read, accepted and
turned into fragments.  Then the fragments are written, the leftovers of
earlier runs are removed, and the entry sheet is compiled unless the run only
generates.  The digest of the configuration is taken then, and the summary is
written last, so that a summary on disk stands for a run that got to its end.
-/
import TokenSheets.Summary
import TokenSheets.Layout
import TokenSheets.Fragment.Settings
import TokenSheets.Fragment.Utilities
import TokenSheets.Fragment.Store

namespace TokenSheets

/-- Why a run did not get to its end. -/
inductive PipelineError where
  | config (source : ConfigError)
  | generate (source : GenerateError)
  | emit (source : EmitError)
  | compile (source : CompileError)
  | summary (path : Path) (source : IoError)
deriving DecidableEq, Repr

namespace PipelineError

def message : PipelineError → String
  | .config e => "configuration error: " ++ e.message
  | .generate e => "generation error: " ++ e.message
  | .emit e => "emit error: " ++ e.message
  | .compile e => "compile error: " ++ e.message
  | .summary p e => "failed to write build summary " ++ p.text ++ ": " ++ e.message

/-- The status that the program ends with. -/
def exitCode : PipelineError → Nat
  | .config _ => 2
  | .generate _ => 3
  | .emit _ => 4
  | .compile _ => 5
  | .summary _ _ => 1

end PipelineError

/-- What to run, and how far. -/
structure Pipeline where
  layout : Layout
  /-- The user document, if it is not at its usual place. -/
  userConfig : Option Path
  /-- Whether to stop before compiling. -/
  generateOnly : Bool

namespace Pipeline

def userConfigPath (p : Pipeline) : Path := p.userConfig.getD p.layout.userConfig

/-- The effective configuration of the project. -/
def resolve (p : Pipeline) (t : FileTree) : Except PipelineError Effective :=
  (Effective.resolve t p.layout.defaultConfig (some p.userConfigPath)).mapError .config

/-- The fragments of a configuration tree. -/
def sources (e : Effective) : Except PipelineError Sources := do
  let typed ← e.typed.mapError .config
  typed.generate.mapError .generate

/-- Writes all fragments, then removes what earlier runs left in their directories. -/
def emit (root : Path) (s : Sources) : Task EmitError (List Path) := do
  let _ ← Fragment.writeAll root s.settings.fragments
  let _ ← Fragment.writeAll root s.utilities.fragments
  let settings ← Fragment.prune root SettingsSheets.directory s.settings.fragments
  let utilities ← Fragment.prune root UtilitySheets.directory s.utilities.fragments
  return settings ++ utilities

/-- The parts of a path below a root, with separators between them. -/
def showBelow (root p : Path) : String := Path.showParts ((p.partsAfter? root).getD p.parts)

def record (f : Fragment) : FragmentRecord := ⟨Path.showParts f.path.parts, f.digest⟩

/-- Compiles the entry sheet if the run goes that far. -/
def compile (p : Pipeline) (compiler : Compiler) : Task CompileError (Option Artifacts) :=
  if p.generateOnly then return none
  else do return some (← Compile.run compiler p.layout.entry p.layout.outputCss)

/-- A whole run at a given time; the summary that was written. -/
def run (p : Pipeline) (compiler : Compiler) (now : Instant) : Task PipelineError Summary := do
  let effective ← Task.tryLook p.resolve
  let sources ← Task.tryLook fun _ => Pipeline.sources effective
  let pruned ← (emit p.layout.sassRoot sources).mapError .emit
  let artifacts ← (p.compile compiler).mapError .compile
  let digest ← Task.tryLook fun _ => effective.digest.mapError .config
  let summary : Summary :=
    { schemaVersion := Summary.currentVersion
      schemaId := Summary.currentId
      createdAt := now
      configDigest := digest
      sources := effective.sources
      settings := sources.settings.enabled
      utilities := sources.utilities.enabled
      fragments := sources.fragments.map record
      pruned := pruned.map (showBelow p.layout.sassRoot)
      artifacts }
  (summary.save p.layout.summary).mapError (.summary p.layout.summary)
  return summary

end Pipeline

end TokenSheets
