/-
TokenSheets/FileTree/Task.lean

Work on a file tree that may fail.

A task takes the tree as it is and gives a result or an error together with the
tree as it leaves it.  What was done before a failure stays done, as on disk.
-/
import TokenSheets.FileTree.Operations

namespace TokenSheets

/-- Work on a file tree with errors of a given type. -/
abbrev Task (ε α : Type) := ExceptT ε (StateM FileTree) α

namespace Task

variable {ε α : Type}

/-- What a task makes of a tree. -/
def on (task : Task ε α) (t : FileTree) : Except ε α × FileTree := ExceptT.run task t

/-- Reads something off the tree. -/
def look (f : FileTree → α) : Task ε α := do return f (← get)

/-- Reads something off the tree that may not be there. -/
def tryLook (f : FileTree → Except ε α) : Task ε α := do
  match f (← get) with
  | .ok a => return a
  | .error e => throw e

/-- Changes the tree, or fails and leaves it. -/
def change (f : FileTree → Except ε FileTree) : Task ε Unit := do
  match f (← get) with
  | .ok t => set t
  | .error e => throw e

/-- An operation that says what tree it leaves in either case. -/
def perform {δ : Type} (wrap : δ → ε) (f : FileTree → Except δ Unit × FileTree) :
    Task ε Unit := do
  let (r, t) := f (← get)
  set t
  match r with
  | .ok () => return ()
  | .error e => throw (wrap e)

/-- A task with errors of another type. -/
def mapError {δ : Type} (wrap : δ → ε) (task : Task δ α) : Task ε α := do
  let (r, t) := task.on (← get)
  set t
  match r with
  | .ok a => return a
  | .error e => throw (wrap e)

end Task

end TokenSheets
