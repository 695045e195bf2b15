/-
TokenSheets/Layout.lean

Where the inputs and outputs of a project are.

The base directory holds the default document, the stylesheet sources and the
output.  It is given, or it is the installed package, or the working directory
itself.  The user document is always looked for in the working directory.
-/
import TokenSheets.FileTree.Operations
import TokenSheets.Document.Bundled

namespace TokenSheets

/-- How the base directory was found. -/
inductive LayoutMode where
  | explicit
  | installed
  | development
deriving DecidableEq, Repr

structure Layout where
  mode : LayoutMode
  cwd : Path
  base : Path
deriving DecidableEq, Repr

namespace Layout

/-- The directory of the package when it is installed. -/
def packageName : String := "lazit-css"

/-- The environment variable that gives the base directory. -/
def baseVariable : String := "LAZIT_BASE_PATH"

def cssName : String := "main.min.css"

def summaryName : String := "lazit-build.json"

/-- The layout of a working directory: an explicit base, the installed package if its directory is
there, or the working directory. -/
def detect (t : FileTree) (cwd : Path) (base : Option Path) : Layout :=
  match base with
  | some b => ⟨.explicit, cwd, cwd.join b⟩
  | none =>
    let installed := (cwd.child "node_modules").child packageName
    if t.isDirectory installed then ⟨.installed, cwd, installed⟩ else ⟨.development, cwd, cwd⟩

def defaultConfig (l : Layout) : Path := (l.base.child "build").child defaultConfigName

def userConfig (l : Layout) : Path := l.cwd.child userConfigName

def sassRoot (l : Layout) : Path := l.base.child "sass"

def entry (l : Layout) : Path := l.sassRoot.child "main.scss"

def publicDir (l : Layout) : Path := l.base.child "public"

def outputCss (l : Layout) : Path := l.publicDir.child cssName

def outputMap (l : Layout) : Path := l.publicDir.child (cssName ++ ".map")

def summary (l : Layout) : Path := l.publicDir.child summaryName

end Layout

end TokenSheets
