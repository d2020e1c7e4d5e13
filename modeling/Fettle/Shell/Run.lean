import Fettle.Shell.Grep
import Fettle.Shell.Machine
import Fettle.Shell.Printf
import Fettle.Shell.Sed

/-!
# Running scripts

Words are expanded to fields, which name a utility, a command of the shell itself or another
script, and hold its arguments. Running is bounded by a number of steps, so that it always ends.
-/

namespace Fettle.Shell

open Files (FileError Tree)

/-! ## Words -/

/-- What a word expands to, piece by piece. -/
inductive Piece where
  /-- A character, and whether it is quoted. -/
  | char (c : Char) (isQuoted : Bool)
  /-- A field begins here, even if nothing follows. -/
  | mark
  /-- One field ends here, and another one may begin. -/
  | split
  /-- There is no field here unless there is something else. -/
  | nothing
deriving DecidableEq, Inhabited, Repr

namespace Piece

/-- A text, all of it quoted or not. -/
def ofText (isQuoted : Bool) (cs : Bytes) : List Piece := cs.map (.char · isQuoted)

/-- Collect the fields of pieces. `field` is the one that has begun, its last character first. -/
def collect : Option Bytes → List Piece → List Bytes
  | none, [] => []
  | some field, [] => [field.reverse]
  | field, .char c isQuoted :: ps =>
    if !isQuoted && (isGap c || c == '\n') then field.toList.map List.reverse ++ collect none ps
    else collect (some (c :: field.getD [])) ps
  | field, .mark :: ps => collect (some (field.getD [])) ps
  | field, .split :: ps => field.toList.map List.reverse ++ collect none ps
  | field, .nothing :: ps => collect field ps

/-- The fields that pieces make. -/
def fields (ps : List Piece) : List Bytes :=
  let isSolid (p : Piece) : Bool := match p with
    | .char .. | .split => true
    | _ => false
  if ps.contains .nothing && !ps.any isSolid then [] else collect none ps

/-- The text that pieces make without being split. -/
def text (ps : List Piece) : Bytes := ps.filterMap fun p => match p with
  | .char c _ => some c
  | .split => some ' '
  | _ => none

/-- The pattern that pieces make. -/
def pattern (ps : List Piece) : Marked := ps.filterMap fun p => match p with
  | .char c isQuoted => some (c, isQuoted)
  | .split => some (' ', true)
  | _ => none

end Piece

/-- Whether a word runs commands, whose status then counts. -/
def Word.runsCommands (w : Word) : Bool := w.any fun p => p matches .output ..

/-! ## Commands of the shell -/

/-- The utilities by name. -/
def utilities : List (String × Utility) := [
  ("cat", cat), ("echo", echo), ("printf", printf), ("test", test), ("[", bracketTest),
  ("grep", grep), ("sed", sed), ("tail", tail),
  (":", fun _ g => { rest := g.input }), ("true", fun _ g => { rest := g.input }),
  ("false", fun _ g => { status := 1, rest := g.input })]

/-- The utility with a name, which may be given with the directory of all utilities. -/
def utilityOf? (name : String) : Option Utility :=
  let directories := ["/bin/", "/usr/bin/"]
  match directories.find? fun d => d.toList.isPrefixOf name.toList with
  | some d => utilities.lookup (String.ofList (name.toList.drop d.length))
  | none => utilities.lookup name

/-- The signals that do not end a process. -/
def harmlessSignals : List String :=
  ["0", "17", "18", "23", "28", "CHLD", "CONT", "URG", "WINCH", "SIGCHLD", "SIGCONT", "SIGURG",
    "SIGWINCH"]

/-- Send a signal. -/
def kill (io : Streams) (args : List Bytes) : Exec Unit := do
  let (signal, targets) := match args with
    | ['-', 's'] :: s :: rest => (s, rest)
    | ('-' :: s) :: rest => (s, rest)
    | rest => ("TERM".toList, rest)
  if targets.contains processNumber then
    if harmlessSignals.contains (String.ofList signal) then Exec.finish 0 else throw .killed
  else
    Exec.complain io ["kill".toList, "No such process".toList]
    Exec.finish 1

/-- A number that a command of the shell is given, or another one if it is given none. -/
def numberArgument (io : Streams) (name : String) (standard : Nat) (args : List Bytes) :
    Exec Nat := do
  match args with
  | [] => return standard
  | a :: _ =>
    match naturalOf? a with
    | some n => return n
    | none => Exec.failShell io [name.toList, "Illegal number".toList, a]

/-- Set the variables that are given with values. -/
def setGiven (args : List Bytes) : Exec Unit := do
  for a in args do
    let name := a.takeWhile (· ≠ '=')
    if name.length < a.length then Exec.setVariable name (a.drop (name.length + 1))
  Exec.finish 0

/-- Run a command of the shell itself, if there is one with the name. -/
def builtin (io : Streams) (name : String) (args : List Bytes) : Exec Bool := do
  match name with
  | "exit" =>
    Exec.finish ((← numberArgument io name (← get).status args) % 256)
    throw .leave
  | "break" => throw (.breakLoops (← numberArgument io name 1 args))
  | "continue" => throw (.nextPass (← numberArgument io name 1 args))
  | "shift" =>
    let n ← numberArgument io name 1 args
    if (← get).arguments.length < n then
      Exec.failShell io ["shift".toList, "can't shift that many".toList]
    else
      modify fun m => { m with arguments := m.arguments.drop n, status := 0 }
      return true
  | "export" | "readonly" =>
    setGiven args
    return true
  | "unset" =>
    modify fun m =>
      { m with bindings := m.bindings.filter fun v => !args.contains v.1, status := 0 }
    return true
  | "set" =>
    match args with
    | ['-', '-'] :: rest => modify fun m => { m with arguments := rest, status := 0 }
    | _ => Exec.finish 0
    return true
  | "kill" =>
    kill io args
    return true
  | name =>
    match utilityOf? name with
    | some u =>
      Exec.utility io u args
      return true
    | none => return false

/-! ## Streams -/

/-- How the shell says why a file cannot be opened. -/
def openingReason (creates : Bool) : FileError → String
  | .notFound => if creates then "Directory nonexistent" else "No such file"
  | why => why.reason

/-- Send a stream to a file, which is made or emptied unless it is written at its end. -/
def openOutput (io : Streams) (stream : Nat) (appends : Bool) (target : Bytes) :
    Exec (Option Streams) := do
  let path := toText target
  let m ← get
  if path = "/dev/null" then return some ((stream, .lost) :: io)
  else if path = "/dev/stderr" then return some ((stream, Exec.sink io 2) :: io)
  else if path = "/dev/stdout" then return some ((stream, Exec.sink io 1) :: io)
  else
    let before := if appends then (m.files.read path).toOption.getD [] else []
    match m.files.write path before with
    | .ok files =>
      set { m with files }
      return some ((stream, .file path) :: io)
    | .error why =>
      Exec.complain io ["cannot create ".toList ++ target, (openingReason true why).toList]
      return none

/-- Send a stream where another one goes. -/
def duplicate (io : Streams) (stream : Nat) (target : Bytes) : Exec (Option Streams) := do
  if target = ['-'] then return some ((stream, .lost) :: io)
  else
    match naturalOf? target with
    | some n => return some ((stream, Exec.sink io n) :: io)
    | none =>
      Exec.complain io ["Bad fd number".toList]
      return none

mutual

/-- Expand a part of a word. -/
def expandPart (io : Streams) : Nat → Part → Exec (List Piece)
  | 0, _ => throw .killed
  | fuel + 1, part => do
    match part with
    | .text cs isQuoted =>
      return (if isQuoted then [.mark] else []) ++ Piece.ofText isQuoted cs
    | .parameter name modifier argument isQuoted =>
      expandParameter io name modifier argument isQuoted fuel
    | .output commands isQuoted =>
      let text ← Exec.capture io fun io => runAll io fuel commands
      let text := (text.reverse.dropWhile (· == '\n')).reverse
      return Piece.ofText isQuoted (text.filter (· ≠ '\x00'))
    | .arithmetic expression isQuoted =>
      let cs ← expandText io fuel expression
      match evaluate (← get).bindings cs with
      | some (n, bindings) =>
        modify fun m => { m with bindings }
        return Piece.ofText isQuoted (decimal n)
      | none =>
        Exec.failShell io ["arithmetic expression".toList, "expecting primary".toList,
          ['"'] ++ cs ++ ['"']]

/-- Expand a parameter. -/
def expandParameter (io : Streams) (name : Bytes) (modifier : Modifier) (argument : Word)
    (isQuoted : Bool) : Nat → Exec (List Piece)
  | 0 => throw .killed
  | fuel + 1 => do
    let found ← Exec.value name
    let plain := Piece.ofText isQuoted (found.getD [])
    let isMissing (orEmpty : Bool) : Bool := match found with
      | none => true
      | some cs => orEmpty && cs.isEmpty
    match modifier with
    | .value =>
      let arguments := (← get).arguments
      if name = ['@'] ∧ isQuoted then
        if arguments.isEmpty then return [.nothing]
        else
          let pieces := arguments.map fun a => .mark :: Piece.ofText true a
          return [.split].intercalate pieces
      else if (name = ['@'] ∨ name = ['*']) ∧ !isQuoted then
        return [.split].intercalate (arguments.map (Piece.ofText false))
      else return plain
    | .length => return Piece.ofText isQuoted (Nat.toDigits 10 (found.getD []).length)
    | .orElse orEmpty => if isMissing orEmpty then expandWord io fuel argument else return plain
    | .orAssign orEmpty =>
      if isMissing orEmpty then
        let cs ← expandText io fuel argument
        Exec.setVariable name cs
        return Piece.ofText isQuoted cs
      else return plain
    | .orFail orEmpty =>
      if isMissing orEmpty then
        let cs ← expandText io fuel argument
        Exec.failShell io [name, if cs.isEmpty then "parameter not set".toList else cs]
      else return plain
    | .ifSet orEmpty => if isMissing orEmpty then return [] else expandWord io fuel argument
    | .withoutFront longest =>
      let p := Piece.pattern (← expandWord io fuel argument)
      return Piece.ofText isQuoted (dropFront p longest (found.getD []))
    | .withoutBack longest =>
      let p := Piece.pattern (← expandWord io fuel argument)
      return Piece.ofText isQuoted (dropBack p longest (found.getD []))

/-- Expand a word. -/
def expandWord (io : Streams) : Nat → Word → Exec (List Piece)
  | 0, _ => throw .killed
  | _, [] => return []
  | fuel + 1, part :: rest => do
    let ps ← expandPart io fuel part
    return ps ++ (← expandWord io fuel rest)

/-- Expand a word to a text that is not split. -/
def expandText (io : Streams) : Nat → Word → Exec Bytes
  | 0, _ => throw .killed
  | fuel + 1, w => return Piece.text (← expandWord io fuel w)

/-- Expand words to fields. -/
def expandFields (io : Streams) : Nat → List Word → Exec (List Bytes)
  | 0, _ => throw .killed
  | _, [] => return []
  | fuel + 1, w :: ws => do
    let fields := Piece.fields (← expandWord io fuel w)
    return fields ++ (← expandFields io fuel ws)

/-- Set variables. -/
def assign (io : Streams) : Nat → List (Bytes × Word) → Exec Unit
  | 0, _ => throw .killed
  | _, [] => return
  | fuel + 1, (name, w) :: rest => do
    Exec.setVariable name (← expandText io fuel w)
    assign io fuel rest

/-- Redirect streams, and do something with them. If a file cannot be opened nothing is done. -/
def redirect (io : Streams) (c : Command) :
    Nat → List (Nat × Channel × Word) → Exec Unit
  | 0, _ => throw .killed
  | fuel + 1, [] => run io fuel c
  | fuel + 1, (stream, channel, w) :: rest => do
    let target ← expandText io fuel w
    match channel with
    | .input =>
      match (← get).files.read (toText target) with
      | .ok content => Exec.withInput (widen content) (redirect io c fuel rest)
      | .error why =>
        Exec.complain io ["cannot open ".toList ++ target, (openingReason false why).toList]
        Exec.finish 2
    | .output | .append =>
      match ← openOutput io stream (channel == .append) target with
      | some io => redirect io c fuel rest
      | none => Exec.finish 2
    | .duplicate =>
      match ← duplicate io stream target with
      | some io => redirect io c fuel rest
      | none => Exec.finish 2

/-- Run a program that is no utility: a script in a file. -/
def runFile (io : Streams) (name : Bytes) (args : List Bytes) : Nat → Exec Unit
  | 0 => throw .killed
  | fuel + 1 => do
    let m ← get
    if !name.contains '/' then
      Exec.complain io [name, "not found".toList]
      Exec.finish 127
    else
      match m.files.node (toText name) with
      | .ok (.file content true) =>
        let outer := m.name
        modify fun m => { m with name, line := 1 }
        Exec.subshell do
          modify fun m => { m with arguments := args, bindings := [], status := 0 }
          tryCatch (runScript io fuel (readScript (widen content))) fun stop => do
            if stop = .killed then Exec.finish 137 else throw stop
        modify fun now => { now with name := outer, line := m.line }
      | .ok _ =>
        Exec.complain io [name, "Permission denied".toList]
        Exec.finish 126
      | .error _ =>
        Exec.complain io [name, "not found".toList]
        Exec.finish 127

/-- Run a program or a command of the shell with its arguments. -/
def runFields (io : Streams) : Nat → List Bytes → Exec Unit
  | 0, _ => throw .killed
  | _, [] => Exec.finish 0
  | fuel + 1, name :: args => do
    if name = "exec".toList then
      if args.isEmpty then Exec.finish 0
      else
        runFields io fuel args
        throw .leave
    else if !(← builtin io (toText name) args) then runFile io name args fuel

/-- Run a command. -/
def run (io : Streams) : Nat → Command → Exec Unit
  | 0, _ => throw .killed
  | fuel + 1, c => do
    match c with
    | .simple line assignments words =>
      modify fun m => { m with line }
      let fields ← expandFields io fuel words
      if fields.isEmpty then
        assign io fuel assignments
        if !(assignments.any fun a => Word.runsCommands a.2) then Exec.finish 0
      else
        let outer := (← get).bindings
        assign io fuel assignments
        runFields io fuel fields
        if !assignments.isEmpty then modify fun m => { m with bindings := outer }
    | .redirected line c redirections =>
      modify fun m => { m with line }
      redirect io c fuel redirections
    | .group commands => runAll io fuel commands
    | .subshell commands => Exec.subshell (runAll io fuel commands)
    | .choice condition consequence alternative =>
      runAll io fuel condition
      if (← get).status = 0 then runAll io fuel consequence
      else
        Exec.finish 0
        runAll io fuel alternative
    | .loop untilSuccess condition body =>
      let status ← runLoop io untilSuccess condition body 0 fuel
      Exec.finish status
    | .each name words body =>
      let values ← match words with
        | some ws => expandFields io fuel ws
        | none => pure (← get).arguments
      Exec.finish 0
      runEach io name body fuel values
    | .select subject cases =>
      let text ← expandText io fuel subject
      Exec.finish 0
      runCases io text fuel cases
    | .pipeline commands => runPipes io fuel commands
    | .negation c =>
      run io fuel c
      modify fun m => { m with status := if m.status = 0 then 1 else 0 }
    | .both a b =>
      run io fuel a
      if (← get).status = 0 then run io fuel b
    | .either a b =>
      run io fuel a
      if (← get).status ≠ 0 then run io fuel b

/-- Run commands in order. -/
def runAll (io : Streams) : Nat → List Command → Exec Unit
  | 0, _ => throw .killed
  | _, [] => return
  | fuel + 1, c :: cs => do
    run io fuel c
    runAll io fuel cs

/-- Run the body of a loop once. The result tells whether the loop goes on. -/
def runPass (io : Streams) (body : List Command) : Nat → Exec Bool
  | 0 => throw .killed
  | fuel + 1 =>
    tryCatch (do runAll io fuel body; return true) fun stop =>
      match stop with
      | .breakLoops n => if n ≤ 1 then return false else throw (.breakLoops (n - 1))
      | .nextPass n => if n ≤ 1 then return true else throw (.nextPass (n - 1))
      | stop => throw stop

/-- Run a loop with a condition. The result is the status of the last pass. -/
def runLoop (io : Streams) (untilSuccess : Bool) (condition body : List Command) (status : Nat) :
    Nat → Exec Nat
  | 0 => throw .killed
  | fuel + 1 => do
    runAll io fuel condition
    if ((← get).status == 0) == untilSuccess then return status
    else if ← runPass io body fuel then
      runLoop io untilSuccess condition body (← get).status fuel
    else return (← get).status

/-- Run a loop over words. -/
def runEach (io : Streams) (name : Bytes) (body : List Command) :
    Nat → List Bytes → Exec Unit
  | 0, _ => throw .killed
  | _, [] => return
  | fuel + 1, v :: vs => do
    Exec.setVariable name v
    if ← runPass io body fuel then runEach io name body fuel vs

/-- Run the first case with a pattern that matches a text. -/
def runCases (io : Streams) (text : Bytes) :
    Nat → List (List Word × List Command) → Exec Unit
  | 0, _ => throw .killed
  | _, [] => return
  | fuel + 1, (patterns, commands) :: cases => do
    if ← anyPattern io text fuel patterns then runAll io fuel commands
    else runCases io text fuel cases

/-- Whether one of some patterns matches a text. -/
def anyPattern (io : Streams) (text : Bytes) : Nat → List Word → Exec Bool
  | 0, _ => throw .killed
  | _, [] => return false
  | fuel + 1, w :: ws => do
    let p := Piece.pattern (← expandWord io fuel w)
    if p.matches text then return true else anyPattern io text fuel ws

/-- Run commands in pipes, each in a shell of its own. -/
def runPipes (io : Streams) : Nat → List Command → Exec Unit
  | 0, _ => throw .killed
  | _, [] => return
  | fuel + 1, [c] => Exec.subshell (run io fuel c)
  | fuel + 1, c :: cs => do
    let text ← Exec.capture io fun io => run io fuel c
    Exec.withInput text (runPipes io fuel cs)

/-- Run a script. A line that cannot be read ends it. -/
def runScript (io : Streams) : Nat → Script → Exec Unit
  | 0, _ => throw .killed
  | fuel + 1, s => do
    runLines io fuel s.lines
    match s.broken with
    | none => return
    | some line =>
      modify fun m => { m with line }
      Exec.failShell io ["Syntax error".toList]

/-- Run the lines of a script. -/
def runLines (io : Streams) : Nat → List (List Command) → Exec Unit
  | 0, _ => throw .killed
  | _, [] => return
  | fuel + 1, cs :: lines => do
    runAll io fuel cs
    runLines io fuel lines

end

/-! ## Processes -/

/-- How a process ends. -/
structure Ending where
  /-- The exit status, unless a signal ended the process. -/
  status : Option Nat
  /-- What it wrote to its output. -/
  output : Text.Octets
  /-- What it wrote to its error stream. -/
  errors : Text.Octets
  /-- The files afterwards. -/
  files : Tree
  /-- The number of bytes of its input that it did not read. -/
  unread : Nat
deriving Inhabited

/-- The number of steps after which a process counts as one that never ends. -/
def stepLimit : Nat := 1000000

/-- Run a script as a process. -/
def runProcess (files : Tree) (name : String) (args : List String) (input script : Text.Octets) :
    Ending :=
  let first : Machine :=
    { files, input := widen input, arguments := args.map ofString, name := ofString name }
  let io : Streams := [(1, .buffer 0), (2, .buffer 1)]
  let (result, m) := (runScript io stepLimit (readScript (widen script))).run.run first
  { status := if result matches .error .killed then none else some m.status
    output := narrow (m.written 0)
    errors := narrow (m.written 1)
    files := m.files
    unread := m.input.length }

/-- Run a utility as a process. -/
def runUtility (files : Tree) (u : Utility) (args : List String) (input : Text.Octets) : Ending :=
  let e := u (args.map ofString) ⟨files, widen input⟩
  { status := some e.status
    output := narrow e.output
    errors := narrow e.errors
    files
    unread := e.rest.length }

end Fettle.Shell
