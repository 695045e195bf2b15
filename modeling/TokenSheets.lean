import TokenSheets.CommandLine.Arguments
import TokenSheets.CommandLine.Run
import TokenSheets.Compile
import TokenSheets.Config.Basic
import TokenSheets.Config.Error
import TokenSheets.Config.Read
import TokenSheets.Digest.Sha256
import TokenSheets.Document.Bundled
import TokenSheets.Document.Effective
import TokenSheets.Document.Merge
import TokenSheets.Document.Source
import TokenSheets.FileTree.Basic
import TokenSheets.FileTree.Operations
import TokenSheets.FileTree.Task
import TokenSheets.Fragment.Basic
import TokenSheets.Fragment.Length
import TokenSheets.Fragment.NamedColors
import TokenSheets.Fragment.Settings
import TokenSheets.Fragment.Store
import TokenSheets.Fragment.Utilities
import TokenSheets.Json.Canonical
import TokenSheets.Json.Decode
import TokenSheets.Json.Fault
import TokenSheets.Json.Mismatch
import TokenSheets.Json.Outline
import TokenSheets.Json.Scan
import TokenSheets.Json.Value
import TokenSheets.Json.Write
import TokenSheets.Layout
import TokenSheets.Main
import TokenSheets.Naming
import TokenSheets.Number.Double
import TokenSheets.Number.Places
import TokenSheets.Number.Read
import TokenSheets.Number.Shortest
import TokenSheets.Number.Style
import TokenSheets.Path
import TokenSheets.Pipeline
import TokenSheets.Proofs.Compile.Again
import TokenSheets.Proofs.Compile.Commit
import TokenSheets.Proofs.Compile.Guarantee
import TokenSheets.Proofs.Compile.Run
import TokenSheets.Proofs.Config.Acceptance
import TokenSheets.Proofs.Config.Accepted
import TokenSheets.Proofs.Config.WrittenOut
import TokenSheets.Proofs.Document.Effective
import TokenSheets.Proofs.Document.Fingerprint
import TokenSheets.Proofs.Document.Layers
import TokenSheets.Proofs.Document.Merge
import TokenSheets.Proofs.Document.Resolve
import TokenSheets.Proofs.Document.RoundTrip
import TokenSheets.Proofs.FileTree.Agreement
import TokenSheets.Proofs.FileTree.Changes
import TokenSheets.Proofs.FileTree.Links
import TokenSheets.Proofs.FileTree.Operations
import TokenSheets.Proofs.FileTree.Regular
import TokenSheets.Proofs.FileTree.Replace
import TokenSheets.Proofs.FileTree.Resolve
import TokenSheets.Proofs.FileTree.Task
import TokenSheets.Proofs.FileTree.Walk
import TokenSheets.Proofs.Fragment.Again
import TokenSheets.Proofs.Fragment.Alignment
import TokenSheets.Proofs.Fragment.Disabled
import TokenSheets.Proofs.Fragment.Entries
import TokenSheets.Proofs.Fragment.Generable
import TokenSheets.Proofs.Fragment.Length
import TokenSheets.Proofs.Fragment.Mixins
import TokenSheets.Proofs.Fragment.Palette
import TokenSheets.Proofs.Fragment.Paths
import TokenSheets.Proofs.Fragment.Prune
import TokenSheets.Proofs.Fragment.Scale
import TokenSheets.Proofs.Fragment.Scope
import TokenSheets.Proofs.Fragment.Settings
import TokenSheets.Proofs.Fragment.Stop
import TokenSheets.Proofs.Fragment.Store
import TokenSheets.Proofs.Fragment.Utilities
import TokenSheets.Proofs.Fragment.Values
import TokenSheets.Proofs.Fragment.Write
import TokenSheets.Proofs.Json.Canonical
import TokenSheets.Proofs.Json.Decode
import TokenSheets.Proofs.Json.Depth
import TokenSheets.Proofs.Json.Number
import TokenSheets.Proofs.Json.Numeral
import TokenSheets.Proofs.Json.Quoted
import TokenSheets.Proofs.Json.Read
import TokenSheets.Proofs.Json.Record
import TokenSheets.Proofs.Json.RoundTrip
import TokenSheets.Proofs.Json.WellFormed
import TokenSheets.Proofs.Json.Written
import TokenSheets.Proofs.Layout
import TokenSheets.Proofs.Naming
import TokenSheets.Proofs.Number.Finite
import TokenSheets.Proofs.Number.Places
import TokenSheets.Proofs.Number.Range
import TokenSheets.Proofs.Number.Rounding
import TokenSheets.Proofs.Number.Shortest
import TokenSheets.Proofs.Number.Text
import TokenSheets.Proofs.Outcome
import TokenSheets.Proofs.Path.Steps
import TokenSheets.Proofs.Pipeline.Again
import TokenSheets.Proofs.Pipeline.Emit
import TokenSheets.Proofs.Pipeline.Rebuild
import TokenSheets.Proofs.Pipeline.Run
import TokenSheets.Proofs.Sheet.Evaluation
import TokenSheets.Proofs.Sheet.Feeds
import TokenSheets.Proofs.Sheet.Quoted
import TokenSheets.Proofs.Sheet.Scan
import TokenSheets.Proofs.Sheet.Scope
import TokenSheets.Proofs.Sheet.Structure
import TokenSheets.Proofs.Sheet.Unique
import TokenSheets.Proofs.Summary.RoundTrip
import TokenSheets.Proofs.Summary.Saved
import TokenSheets.Proofs.Table
import TokenSheets.Proofs.Text.Plain
import TokenSheets.Proofs.Time.Calendar
import TokenSheets.Proofs.Time.Instant
import TokenSheets.Sheet.Basic
import TokenSheets.Sheet.Render
import TokenSheets.Shell.Program
import TokenSheets.Shell.Run
import TokenSheets.Shell.Syntax
import TokenSheets.Summary
import TokenSheets.Text.Blank
import TokenSheets.Text.Lines
import TokenSheets.Text.Shown
import TokenSheets.Text.Utf8
import TokenSheets.Text.Visible
import TokenSheets.Time.Calendar
import TokenSheets.Time.Instant
