import MarkTidy.Command.Grammar
import MarkTidy.Command.Invocation
import MarkTidy.Command.Run
import MarkTidy.Config.Load
import MarkTidy.Config.Setting
import MarkTidy.Diff.Edit
import MarkTidy.Diff.Unified
import MarkTidy.Document.Fence
import MarkTidy.Document.Frontmatter
import MarkTidy.Document.Layout
import MarkTidy.Document.LineKind
import MarkTidy.Document.Lint
import MarkTidy.Document.Math
import MarkTidy.Failure
import MarkTidy.Ignore.Glob
import MarkTidy.Ignore.Rule
import MarkTidy.Log
import MarkTidy.Log.Journal
import MarkTidy.Main
import MarkTidy.Number.Decimal
import MarkTidy.Number.Numeral
import MarkTidy.Proofs.Command.Agreement
import MarkTidy.Proofs.Command.Answered
import MarkTidy.Proofs.Command.Reported
import MarkTidy.Proofs.Config.Extension
import MarkTidy.Proofs.Config.Quoting
import MarkTidy.Proofs.Config.Refusal
import MarkTidy.Proofs.Diff.Cut
import MarkTidy.Proofs.Diff.Described
import MarkTidy.Proofs.Diff.Patch
import MarkTidy.Proofs.Diff.Script
import MarkTidy.Proofs.Document.Boundary
import MarkTidy.Proofs.Document.Closing
import MarkTidy.Proofs.Document.Crossing
import MarkTidy.Proofs.Document.DashedLine
import MarkTidy.Proofs.Document.Drawing
import MarkTidy.Proofs.Document.Feeding
import MarkTidy.Proofs.Document.FirstLine
import MarkTidy.Proofs.Document.Frontmatter
import MarkTidy.Proofs.Document.Idempotence
import MarkTidy.Proofs.Document.Integrity
import MarkTidy.Proofs.Document.Knot
import MarkTidy.Proofs.Document.LineEnding
import MarkTidy.Proofs.Document.LineKind
import MarkTidy.Proofs.Document.Math
import MarkTidy.Proofs.Document.MovedBoundary
import MarkTidy.Proofs.Document.Nonce
import MarkTidy.Proofs.Document.Noninterference
import MarkTidy.Proofs.Document.Outline
import MarkTidy.Proofs.Document.Pairing
import MarkTidy.Proofs.Document.Parametric
import MarkTidy.Proofs.Document.Readback
import MarkTidy.Proofs.Document.Repetition
import MarkTidy.Proofs.Document.Restore
import MarkTidy.Proofs.Document.Reworked
import MarkTidy.Proofs.Document.RoundTrip
import MarkTidy.Proofs.Document.Scattered
import MarkTidy.Proofs.Document.Settled
import MarkTidy.Proofs.Document.Spaced
import MarkTidy.Proofs.Document.Spacing
import MarkTidy.Proofs.Document.Template
import MarkTidy.Proofs.Document.Token
import MarkTidy.Proofs.Document.Trimmed
import MarkTidy.Proofs.Document.Words
import MarkTidy.Proofs.Ignore.Depth
import MarkTidy.Proofs.Ignore.Verdict
import MarkTidy.Proofs.Log.Routing
import MarkTidy.Proofs.Run.Dangling
import MarkTidy.Proofs.Run.Documents
import MarkTidy.Proofs.Run.Effect
import MarkTidy.Proofs.Run.Foretold
import MarkTidy.Proofs.Run.Plan
import MarkTidy.Proofs.Run.Skipped
import MarkTidy.Proofs.Run.Touched
import MarkTidy.Proofs.Run.Walk
import MarkTidy.Proofs.Text.InOrder
import MarkTidy.Proofs.Text.Lines
import MarkTidy.Proofs.Text.Lowercase
import MarkTidy.Proofs.Text.Pieces
import MarkTidy.Proofs.Text.Returns
import MarkTidy.Proofs.Text.Search
import MarkTidy.Proofs.Text.Span
import MarkTidy.Proofs.Text.Trim
import MarkTidy.Proofs.Tree.Lookup
import MarkTidy.Proofs.Tree.Outline
import MarkTidy.Proofs.Tree.Place
import MarkTidy.Proofs.Tree.Resolve
import MarkTidy.Proofs.Tree.Sound
import MarkTidy.Proofs.Tree.Wanting
import MarkTidy.Proofs.Yaml.Fault
import MarkTidy.Proofs.Yaml.Line
import MarkTidy.Proofs.Yaml.Plain
import MarkTidy.Proofs.Yaml.Section
import MarkTidy.Proofs.Yaml.Table
import MarkTidy.Proofs.Yaml.Tag
import MarkTidy.Run.Scan
import MarkTidy.Run.Tidy
import MarkTidy.Run.World
import MarkTidy.Service.Json
import MarkTidy.Service.Request
import MarkTidy.Service.Respond
import MarkTidy.Text.Basic
import MarkTidy.Text.Blank
import MarkTidy.Text.CaseTable
import MarkTidy.Text.DecimalDigit
import MarkTidy.Text.Lines
import MarkTidy.Text.Lowercase
import MarkTidy.Text.PrintTable
import MarkTidy.Text.Quoted
import MarkTidy.Text.Search
import MarkTidy.Text.Span
import MarkTidy.Tree.Basic
import MarkTidy.Tree.Lookup
import MarkTidy.Tree.Path
import MarkTidy.Tree.Place
import MarkTidy.Yaml.Cursor
import MarkTidy.Yaml.Graph
import MarkTidy.Yaml.Literal
import MarkTidy.Yaml.Scalar
import MarkTidy.Yaml.Tag
import MarkTidy.Yaml.Token
import MarkTidy.Yaml.Value
