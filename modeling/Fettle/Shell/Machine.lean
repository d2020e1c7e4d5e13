import Fettle.Shell.Arithmetic
import Fettle.Shell.Pattern
import Fettle.Shell.Utility

/-!
# The state of a shell

What a shell knows while it runs a script: the files, what is left of its input, what it has
written, its variables and its arguments. A command changes the state and goes on, or it stops what
is around it: a loop, the shell, or the whole process.
-/

namespace Fettle.Shell

open Files (Tree)

/-- Where a stream goes. -/
inductive Sink where
  /-- To a buffer, by its number. -/
  | buffer (n : Nat)
  /-- To the end of a file. -/
  | file (path : String)
  /-- Nowhere. -/
  | lost
deriving DecidableEq, Inhabited, Repr

/-- Where the streams of a command go, by their numbers. -/
abbrev Streams := List (Nat × Sink)

/-- The state of a shell. -/
structure Machine where
  /-- The files. -/
  files : Tree
  /-- What is left of the input. -/
  input : Bytes
  /-- What is written to each buffer, the latest byte first. -/
  buffers : Array Bytes := #[[], []]
  /-- The variables. -/
  bindings : Variables := []
  /-- The arguments. -/
  arguments : List Bytes
  /-- The name of the script. -/
  name : Bytes
  /-- The status of the latest command. -/
  status : Nat := 0
  /-- The line of the latest command. -/
  line : Nat := 1
deriving Inhabited

/-- What a command stops. -/
inductive Stop where
  /-- The shell. -/
  | leave
  /-- Some loops. -/
  | breakLoops (n : Nat)
  /-- One pass of a loop, inside so many loops less one. -/
  | nextPass (n : Nat)
  /-- The process, by a signal. -/
  | killed
deriving DecidableEq, Inhabited, Repr

/-- Something that a shell does. -/
abbrev Exec := ExceptT Stop (StateM Machine)

/-- The number of the process, as scripts see it. -/
def processNumber : Bytes := "4242".toList

namespace Machine

/-- Write to a buffer. -/
def put (m : Machine) (n : Nat) (text : Bytes) : Machine :=
  { m with buffers := m.buffers.modify n (text.reverseAux ·) }

/-- Write to a sink. -/
def emit (m : Machine) (s : Sink) (text : Bytes) : Machine :=
  match s with
  | .buffer n => m.put n text
  | .lost => m
  | .file path =>
    let before := (m.files.read path).toOption.getD []
    match m.files.write path (before ++ narrow text) with
    | .ok files => { m with files }
    | .error _ => m

/-- What is written to a buffer. -/
def written (m : Machine) (n : Nat) : Bytes := (m.buffers[n]?.getD []).reverse

end Machine

namespace Exec

/-- The sink of a stream. -/
def sink (io : Streams) (n : Nat) : Sink := (io.lookup n).getD .lost

/-- Write to a stream. -/
def write (io : Streams) (n : Nat) (text : Bytes) : Exec Unit :=
  if text.isEmpty then return else modify fun m => m.emit (sink io n) text

/-- Set the status. -/
def finish (status : Nat) : Exec Unit := modify fun m => { m with status }

/-- Say what is wrong, with the name of the script and the line. -/
def complain (io : Streams) (parts : List Bytes) : Exec Unit := do
  let m ← get
  write io 2 ((": ".toList).intercalate (m.name :: decimal m.line :: parts) ++ ['\n'])

/-- Say what is wrong, and leave the shell. -/
def failShell {α : Type} (io : Streams) (parts : List Bytes) : Exec α := do
  complain io parts
  finish 2
  throw .leave

/-- Do something in a shell of its own: variables and arguments are as before afterwards, and only
that shell is left. -/
def subshell (action : Exec Unit) : Exec Unit := do
  let before ← get
  tryCatch action fun stop => do
    if stop = .killed then throw stop
  modify fun m => { m with bindings := before.bindings, arguments := before.arguments }

/-- Do something with an output of its own, and tell what is written to it. -/
def capture (io : Streams) (action : Streams → Exec Unit) : Exec Bytes := do
  let n := (← get).buffers.size
  modify fun m => { m with buffers := m.buffers.push [] }
  subshell (action ((1, .buffer n) :: io))
  let text := (← get).written n
  modify fun m => { m with buffers := m.buffers.pop }
  return text

/-- Do something with an input of its own. -/
def withInput (input : Bytes) (action : Exec Unit) : Exec Unit := do
  let outer := (← get).input
  modify fun m => { m with input }
  let stopped ← tryCatch (do action; return none) fun stop => return some stop
  modify fun m => { m with input := outer }
  match stopped with
  | none => return
  | some stop => throw stop

/-- Run a utility. -/
def utility (io : Streams) (u : Utility) (args : List Bytes) : Exec Unit := do
  let m ← get
  let e := u args ⟨m.files, m.input⟩
  set { m with input := e.rest, status := e.status }
  write io 1 e.output
  write io 2 e.errors

/-- The value of a parameter, if it is set. -/
def value (name : Bytes) : Exec (Option Bytes) := do
  let m ← get
  match name with
  | ['@'] | ['*'] =>
    return if m.arguments.isEmpty then none else some ([' '].intercalate m.arguments)
  | ['#'] => return some (Nat.toDigits 10 m.arguments.length)
  | ['?'] => return some (Nat.toDigits 10 m.status)
  | ['$'] => return some processNumber
  | ['!'] | ['-'] => return none
  | name =>
    match naturalOf? name with
    | some 0 => return some m.name
    | some n => return m.arguments[n - 1]?
    | none => return m.bindings.lookup name

/-- Set a variable. -/
def setVariable (name value : Bytes) : Exec Unit :=
  modify fun m => { m with bindings := m.bindings.put name value }

end Exec

end Fettle.Shell
