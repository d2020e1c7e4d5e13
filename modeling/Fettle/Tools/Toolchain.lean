import Fettle.Lint.Wire
import Fettle.Service.Basic
import Fettle.Tools.CommandLines
import Fettle.Tools.Process

/-!
# Engines that run tools

The formatter and the diagnostic sources of a service are tools, as the settings name them. A tool
sees and changes the files, which are therefore the memory that the engines share. Starting the
engines means asking each tool for its version.
-/

namespace Fettle.Tools

open Files (Tree)
open Settings (FormatterKind Resolved)

/-- Run a tool as a call to an engine. -/
def callTool (asError : String → EngineError) (program : String) (args : List String)
    (text : String) : Call Tree String := fun t =>
  let (answer, t) := runTool program args text t
  (answer.mapError asError, t)

/-- The tool `black` as a formatter. -/
def black (program : String) : Formatter Tree := fun options text =>
  callTool .format program (blackArguments options) text

/-- The tool `ruff` as a formatter. -/
def ruffFormat (program stdinFilename : String) : Formatter Tree := fun options text =>
  callTool .format program (ruffFormatArguments stdinFilename options) text

/-- The diagnostics that a tool has written. -/
def readDiagnostics (output : String) : Except EngineError (List Diagnostic) :=
  (Lint.readReport output).mapError fun f => .diagnosis (Lint.reportMessage output f)

/-- The tool `ruff` as a diagnostic source for some rules. -/
def ruffCheck (program stdinFilename : String) (select : List String) :
    Fix.Source EngineError Tree := fun text => do
  let output ← callTool .diagnosis program (ruffCheckArguments stdinFilename select) text
  ExceptT.mk (pure (readDiagnostics output))

/-- The engines that settings name. -/
def engines (s : Resolved) : Engines Tree where
  formatter := match s.formatter with
    | .black => black s.blackPath
    | .ruff => ruffFormat s.ruffPath s.stdinFilename
  diagnostics := ruffCheck s.ruffPath s.stdinFilename s.select
  linter := ruffCheck s.ruffPath s.stdinFilename s.lintSelect

/-- Ask the tools that settings name for their versions: `ruff` first, which every service needs,
and then the formatter if it is another tool. -/
def checkVersions (s : Resolved) : Call Tree Unit := do
  ExceptT.mk fun t => checkVersion s.ruffPath t
  match s.formatter with
  | .black => ExceptT.mk fun t => checkVersion s.blackPath t
  | .ruff => pure ()

/-- Start the engines that settings name. -/
def provide (s : Resolved) : StateM Tree (Attempt (Engines Tree)) := do
  let checked ← (checkVersions s).run
  return ⟨checked.map fun _ => engines s, ⟨0⟩⟩

/-- The service that settings describe. -/
def service (s : Resolved) : Service Tree := ⟨provide s, s.startupLimit, s.pipeline⟩

end Fettle.Tools
