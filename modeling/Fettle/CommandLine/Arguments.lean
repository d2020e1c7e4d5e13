import Fettle.Settings.Layer

/-!
# Command-line arguments

A request names at most one file and carries options, in any order. An option with a value is
written with the value after it or behind an equals sign; after a double dash every argument is a
file name. The value of an option is looked at only when the next argument is read that is not a
value, so a fault further on may be found before it: an argument that is not known is reported
even if an earlier value is bad. Arguments are texts, and so are the paths among them: one whose
bytes spell no text is left out.
-/

namespace Fettle.CommandLine

open Settings (FormatterKind)

/-- What is done with the input. -/
inductive Mode where
  /-- Format, fix, format again. -/
  | shed
  /-- Format only. -/
  | format
  /-- Report what the lint engine finds. -/
  | lint
deriving DecidableEq, Inhabited, Repr

/-- The name of a mode. -/
def Mode.name : Mode → String
  | shed => "shed"
  | format => "format"
  | lint => "lint"

/-- The mode with a name. -/
def Mode.ofName? (s : String) : Option Mode := [shed, format, lint].find? (·.name == s)

/-- What a command line asks for. -/
structure Arguments where
  /-- The file name, if one is given. -/
  path : Option String := none
  /-- What is done with the input. -/
  mode : Mode := .shed
  /-- The tool that formats, in place of the one in the settings. -/
  formatter : Option FormatterKind := none
  /-- A settings file on top of the user's. -/
  config : Option String := none
  /-- Whether the response is printed as JSON. -/
  json : Bool := false
  /-- Whether a diff is printed. -/
  diff : Bool := false
  /-- Whether the exit status tells that the text would change. -/
  check : Bool := false
  /-- Whether more is logged. -/
  verbose : Bool := false
deriving DecidableEq, Inhabited, Repr

namespace Arguments

/-- The file that is read; a single dash stands for the standard input. -/
def inputPath (a : Arguments) : Option String := a.path.filter (· ≠ "-")

/-- The name of the input in diffs and reports. -/
def displayName (a : Arguments) : String := a.inputPath.getD "<stdin>"

end Arguments

/-- Why a command line is not accepted. -/
inductive Rejection where
  /-- A value is missing, empty, or none of the words allowed. -/
  | invalidValue
  /-- An option is repeated, or excluded by another. -/
  | conflict
  /-- An argument has no place. -/
  | unknownArgument
  /-- An option without value is given one. -/
  | tooManyValues
  /-- Help is asked for. -/
  | help
deriving DecidableEq, Inhabited, Repr

/-- The exit status for a command line that is not accepted. -/
def Rejection.exitStatus : Rejection → Nat
  | help => 0
  | _ => 2

/-- The options with a value. -/
inductive Setting where
  /-- What is done with the input. -/
  | mode
  /-- The tool that formats. -/
  | formatter
  /-- A settings file. -/
  | config
deriving DecidableEq, Inhabited, Repr

/-- The options without a value. -/
inductive Flag where
  /-- Print JSON. -/
  | json
  /-- Print a diff. -/
  | diff
  /-- Tell by the exit status. -/
  | check
  /-- Log more. -/
  | verbose
  /-- Ask for help. -/
  | help
deriving DecidableEq, Inhabited, Repr

/-- What a name after two dashes stands for. -/
def longName? (name : String) : Option (Setting ⊕ Flag) :=
  match name with
  | "mode" => some (.inl .mode)
  | "formatter" => some (.inl .formatter)
  | "config" => some (.inl .config)
  | "json" => some (.inr .json)
  | "diff" => some (.inr .diff)
  | "check" => some (.inr .check)
  | "verbose" => some (.inr .verbose)
  | "help" => some (.inr .help)
  | _ => none

/-- What a letter after one dash stands for. -/
def shortName? : Char → Option Flag
  | 'v' => some .verbose
  | 'h' => some .help
  | _ => none

/-- An argument that is read and not yet looked at. -/
inductive Pending where
  /-- There is none. -/
  | none
  /-- An option whose value, if it has come, is not looked at. -/
  | setting (s : Setting) (value : Option String)
  /-- A file name. -/
  | path (value : String)
deriving DecidableEq, Inhabited, Repr

/-- The state of reading a command line. -/
structure Progress where
  /-- What has been asked for so far. -/
  arguments : Arguments := {}
  /-- The options with a value that have been given. -/
  given : List Setting := []
  /-- The argument not yet looked at. -/
  pending : Pending := .none
  /-- Whether a file name has come. -/
  hasPath : Bool := false
  /-- Whether a double dash has come. -/
  namesOnly : Bool := false
deriving DecidableEq, Inhabited, Repr

namespace Progress

/-- Give a value to an option. -/
def assign (p : Progress) (s : Setting) (value : String) : Except Rejection Progress :=
  if p.given.contains s then .error .conflict
  else
    let p := { p with given := s :: p.given }
    match s with
    | .mode =>
      match Mode.ofName? value with
      | some mode => .ok { p with arguments := { p.arguments with mode } }
      | none => .error .invalidValue
    | .formatter =>
      match FormatterKind.ofName? value with
      | some kind => .ok { p with arguments := { p.arguments with formatter := some kind } }
      | none => .error .invalidValue
    | .config =>
      if value = "" then .error .invalidValue
      else .ok { p with arguments := { p.arguments with config := some value } }

/-- Look at the argument that was put aside. -/
def settle (p : Progress) : Except Rejection Progress :=
  let rest := { p with pending := .none }
  match p.pending with
  | .none => .ok rest
  | .setting _ none => .error .invalidValue
  | .setting s (some value) => rest.assign s value
  | .path value =>
    if value = "" then .error .invalidValue
    else .ok { rest with arguments := { rest.arguments with path := some value } }

/-- Set an option without value. -/
def raise (p : Progress) (f : Flag) : Except Rejection Progress := do
  let p ← p.settle
  let a := p.arguments
  let once (isSet : Bool) (a : Arguments) : Except Rejection Progress :=
    if isSet then .error .conflict else .ok { p with arguments := a }
  match f with
  | .json => once a.json { a with json := true }
  | .diff => once a.diff { a with diff := true }
  | .check => once a.check { a with check := true }
  | .verbose => once a.verbose { a with verbose := true }
  | .help => .error .help

/-- Read an argument that is no option: the value of an option that waits for one, or a file
name. -/
def readPlain (p : Progress) (s : String) : Except Rejection Progress :=
  match p.pending, p.namesOnly with
  | .setting o none, false => .ok { p with pending := .setting o (some s) }
  | _, _ =>
    if p.hasPath then .error .unknownArgument
    else do
      let p ← p.settle
      .ok { p with pending := .path s, hasPath := true }

/-- Read an argument that begins with two dashes. -/
def readLong (p : Progress) (body : List Char) : Except Rejection Progress :=
  let name := String.ofList (body.takeWhile (· ≠ '='))
  let value := match body.dropWhile (· ≠ '=') with
    | [] => none
    | _ :: cs => some (String.ofList cs)
  match longName? name, value with
  | none, _ => .error .unknownArgument
  | some (.inl s), some value => do (← p.settle).assign s value
  | some (.inl s), none => do .ok { (← p.settle) with pending := .setting s none }
  | some (.inr _), some _ => .error .tooManyValues
  | some (.inr f), none => p.raise f

/-- Read the letters after a single dash. -/
def readShort (p : Progress) : List Char → Except Rejection Progress
  | [] => .ok p
  | c :: cs =>
    match shortName? c with
    | none => .error .unknownArgument
    | some f => do readShort (← p.raise f) cs

/-- Read one argument. -/
def read (p : Progress) (s : String) : Except Rejection Progress :=
  if p.namesOnly then p.readPlain s
  else
    match s.toList with
    | ['-', '-'] => .ok { p with namesOnly := true }
    | '-' :: '-' :: body => p.readLong body
    | '-' :: c :: cs => p.readShort (c :: cs)
    | _ => p.readPlain s

end Progress

/-- Read a command line, without the name of the program. -/
def parse (args : List String) : Except Rejection Arguments := do
  let p ← args.foldlM Progress.read {}
  let p ← p.settle
  if p.arguments.json && p.arguments.diff then .error .conflict else .ok p.arguments

end Fettle.CommandLine
