import Fettle.CommandLine.Arguments
import Fettle.Diff.Unified
import Fettle.Json.Writer
import Fettle.Lint.Report
import Fettle.Settings.Load
import Fettle.Tools.Toolchain

/-!
# The command line

A command line asks for one text to be formatted or looked at. What is printed, what is said about
errors and the exit status follow from the arguments and the response of the service alone.
-/

namespace Fettle.CommandLine

open Files (Tree)

/-- What a run of the program leaves behind: its exit status, and what it has written. -/
structure Result where
  /-- The exit status. -/
  status : Nat
  /-- What is written to the output. -/
  output : String
  /-- What is written to the error stream. -/
  errors : String
deriving DecidableEq, Inhabited, Repr

/-- A JSON value as it is printed, with a line feed after it. -/
def jsonText (v : Json.Value) : String := v.pretty ++ "\n"

/-- What is said about an error in a response; in JSON the response says it itself. -/
def errorText (a : Arguments) (error : Option String) : String :=
  match error with
  | some e => if a.json then "" else s!"shed: {e}\n"
  | none => ""

/-- Print the response to a formatting request for a text. The status is two if the engines failed,
one if the text would change and the arguments ask about that, and zero otherwise. -/
def printFormat (a : Arguments) (source : String) (r : FormatResponse) : Result where
  status := if !r.success then 2 else if a.check && r.changed then 1 else 0
  output :=
    if a.json then jsonText r.toJson
    else if a.diff then Diff.unified a.displayName source r.formatted
    else if a.check then ""
    else r.formatted
  errors := errorText a r.error

/-- Print the response to a lint request. The status is two if the engines failed, one if there are
issues, and zero otherwise. -/
def printLint (a : Arguments) (r : LintResponse) : Result where
  status := if !r.success then 2 else if 0 < r.totalIssues then 1 else 0
  output :=
    if a.json then jsonText r.toJson
    else if r.success then Lint.render a.displayName r
    else ""
  errors := errorText a r.error

/-- Print a response. -/
def print (a : Arguments) (source : String) : Response → Result
  | .format r => printFormat a source r
  | .lint r => printLint a r

/-- The request for a text that a mode makes. -/
def Mode.request (source : String) : Mode → Request
  | shed => .formatSource source
  | format => .formatOnly source
  | lint => .lintSource source

/-- The result of a run that ends before there is a response. -/
def abort (message : String) : Result := ⟨1, "", s!"Error: {message}\n"⟩

/-- The message for an input that cannot be read, with the reason below it. -/
def unreadable (what reason : String) : String :=
  s!"failed to read {what}\n\nCaused by:\n    {reason}"

/-- Read the text that the arguments name: a file, or the standard input. -/
def readInput (a : Arguments) (t : Tree) (stdin : Text.Octets) : Except String String :=
  match a.inputPath with
  | some path => (t.readText path).mapError fun why => unreadable path why.message
  | none => (Text.decode stdin).mapError fun why => unreadable "stdin" why.message

/-- The settings with the formatter that the arguments name. -/
def withFormatter (a : Arguments) (s : Settings.Resolved) : Settings.Resolved :=
  { s with formatter := a.formatter.getD s.formatter }

/-- Run the program: load the settings, read the text, and answer the request with the service that
the settings describe. -/
def run (a : Arguments) (userSettings : String) (stdin : Text.Octets) (t : Tree) : Result × Tree :=
  match Settings.load Settings.Layer.ofText t userSettings a.config with
  | .error e => (abort e.message, t)
  | .ok settings =>
    match readInput a t stdin with
    | .error reason => (abort reason, t)
    | .ok source =>
      let service := Tools.service (withFormatter a settings)
      let (response, state) := (service.handle (a.mode.request source)).run { memory := t }
      (print a source response, state.memory)

end Fettle.CommandLine
