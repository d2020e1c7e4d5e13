import Fettle.Engine.Error
import Fettle.Shell.Run
import Fettle.Text.Blank

/-!
# Running tools

A tool is a program in the file tree, or a utility that is named without a directory. It is given
arguments and an input, and a pipe between the tools and their caller holds so many bytes.
-/

namespace Fettle.Tools

open Files (FileError Tree)
open Shell (Ending)

/-- The number of bytes that a pipe holds. -/
def pipeSize : Nat := 65536

/-- The program that the first line of a script names. -/
def interpreter (script : Text.Octets) : Option String :=
  match Shell.widen (script.takeWhile (· ≠ 10)) with
  | '#' :: '!' :: rest =>
    let isGap (c : Char) := c == ' ' || c == '\t'
    some (String.ofList ((rest.dropWhile isGap).takeWhile fun c => !isGap c))
  | _ => none

/-- The shells that a script may name. -/
def shells : List String := ["/bin/sh", "/usr/bin/sh", "/bin/dash", "/usr/bin/dash"]

/-- Run a program with arguments and an input, unless it cannot be started. -/
def start (t : Tree) (program : String) (args : List String) (input : Text.Octets) :
    Except FileError Ending :=
  match Shell.utilityOf? program with
  | some u => .ok (Shell.runUtility t u args input)
  | none =>
    if !program.toList.contains '/' then .error .notFound
    else do
      match ← t.node program with
      | .file script true =>
        match interpreter script with
        | none => .error .notProgram
        | some name =>
          if shells.contains name then .ok (Shell.runProcess t program args input script)
          else .error .notFound
      | _ => .error .forbidden

/-- The status that messages tell; a process that a signal ended has none, which is told as minus
one. -/
def statusText (status : Option Nat) : String :=
  match status with
  | some n => toString n
  | none => "-1"

/-- Read off the output of a tool that has ended: its text, or what is wrong. Its failure counts
first, then input that it did not read, then output that is no text. -/
def outputText (program : String) (e : Ending) : Except String String :=
  if e.status ≠ some 0 then
    let said := Text.trim (Text.decodeLossy e.errors)
    .error s!"{program} exited with {statusText e.status}: {said}"
  else if pipeSize < e.unread then
    .error s!"{program}: failed to write stdin: Broken pipe (os error 32)"
  else
    match Text.decode e.output with
    | .ok text => .ok text
    | .error _ => .error s!"{program} produced non-UTF-8 output"

/-- Run a tool on a text: what it writes, or what is wrong, and the files afterwards. -/
def runTool (program : String) (args : List String) (text : String) (t : Tree) :
    Except String String × Tree :=
  match start t program args (Text.encode text) with
  | .error why => (.error s!"Failed to spawn {program}: {why.message}", t)
  | .ok e => (outputText program e, e.files)

/-- Ask a tool for its version, which tells whether it is there. -/
def checkVersion (program : String) (t : Tree) : Except EngineError Unit × Tree :=
  match start t program ["--version"] [] with
  | .error why => (.error (.startup s!"{program} is not available: {why.message}"), t)
  | .ok e =>
    if e.status = some 0 then (.ok (), e.files)
    else (.error (.startup s!"{program} --version exited with {statusText e.status}"), e.files)

end Fettle.Tools
