import Fettle.CommandLine.Arguments
import Fettle.CommandLine.Run
import Fettle.Data.Complaint
import Fettle.Decimal.Binary64
import Fettle.Decimal.Shortest
import Fettle.Decimal.Spelled
import Fettle.Diff.Lines
import Fettle.Diff.Script
import Fettle.Diff.Slide
import Fettle.Diff.Unified
import Fettle.Engine.Basic
import Fettle.Engine.Error
import Fettle.Engine.Startup
import Fettle.Files.FileSystem
import Fettle.Files.Tree
import Fettle.Fix.Admission
import Fettle.Fix.Converge
import Fettle.Fix.Patch
import Fettle.Fix.Selection
import Fettle.Json.Document
import Fettle.Json.Reader
import Fettle.Json.Record
import Fettle.Json.Skip
import Fettle.Json.Value
import Fettle.Json.Writer
import Fettle.Lint.Report
import Fettle.Lint.Wire
import Fettle.Main
import Fettle.Pipeline
import Fettle.Proofs.CommandLine.Forms
import Fettle.Proofs.CommandLine.Spellings
import Fettle.Proofs.CommandLine.Words
import Fettle.Proofs.Diff.Faithful
import Fettle.Proofs.Diff.Hunks
import Fettle.Proofs.Diff.Joining
import Fettle.Proofs.Diff.Mentions
import Fettle.Proofs.Diff.Places
import Fettle.Proofs.Diff.Presence
import Fettle.Proofs.Diff.Reading
import Fettle.Proofs.Diff.Rows
import Fettle.Proofs.Diff.Sliding
import Fettle.Proofs.Engine.Call
import Fettle.Proofs.Engine.Interleaving
import Fettle.Proofs.Engine.OnceOnly
import Fettle.Proofs.Fix.Budget
import Fettle.Proofs.Fix.Buffer
import Fettle.Proofs.Fix.Clamping
import Fettle.Proofs.Fix.Conflict
import Fettle.Proofs.Fix.Greedy
import Fettle.Proofs.Fix.Iteration
import Fettle.Proofs.Fix.Lockstep
import Fettle.Proofs.Fix.Patch
import Fettle.Proofs.Fix.Reordering
import Fettle.Proofs.Fix.Replacement
import Fettle.Proofs.Fix.Safety
import Fettle.Proofs.Fix.Selection
import Fettle.Proofs.Json.Extension
import Fettle.Proofs.Json.Reading
import Fettle.Proofs.Json.RecordExtension
import Fettle.Proofs.Json.Records
import Fettle.Proofs.Json.Skipping
import Fettle.Proofs.Json.Spelling
import Fettle.Proofs.Json.Writing
import Fettle.Proofs.Json.Written
import Fettle.Proofs.Lint.Report
import Fettle.Proofs.Lint.Truncation
import Fettle.Proofs.Lint.Wire
import Fettle.Proofs.Pipeline.Inadmissible
import Fettle.Proofs.Pipeline.Stability
import Fettle.Proofs.Pipeline.Stages
import Fettle.Proofs.Service.Handling
import Fettle.Proofs.Service.Isolation
import Fettle.Proofs.Service.Truth
import Fettle.Proofs.Settings.Field
import Fettle.Proofs.Settings.Layers
import Fettle.Proofs.Settings.Loading
import Fettle.Proofs.Settings.Reading
import Fettle.Proofs.Span.RoundTrip
import Fettle.Proofs.Text.Offset
import Fettle.Rehearsal.Basic
import Fettle.Service.Basic
import Fettle.Service.Response
import Fettle.Settings.Json
import Fettle.Settings.Layer
import Fettle.Settings.Load
import Fettle.Settings.Members
import Fettle.Settings.Yaml
import Fettle.Shell.Arithmetic
import Fettle.Shell.Expression
import Fettle.Shell.Grep
import Fettle.Shell.Machine
import Fettle.Shell.Pattern
import Fettle.Shell.Printf
import Fettle.Shell.Reader
import Fettle.Shell.Run
import Fettle.Shell.Script
import Fettle.Shell.Sed
import Fettle.Shell.Utility
import Fettle.Span.Edit
import Fettle.Span.Json
import Fettle.Span.Position
import Fettle.Text.Blank
import Fettle.Text.Escaped
import Fettle.Text.Occurrences
import Fettle.Text.Octets
import Fettle.Text.Quoted
import Fettle.Text.Rows
import Fettle.Tools.CommandLines
import Fettle.Tools.Process
import Fettle.Tools.Toolchain
import Fettle.Yaml.Cursor
import Fettle.Yaml.Document
import Fettle.Yaml.Kind
import Fettle.Yaml.Scalar
import Fettle.Yaml.Token
