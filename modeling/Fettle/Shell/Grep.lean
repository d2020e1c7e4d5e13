import Fettle.Shell.Expression
import Fettle.Shell.Utility

/-!
# Searching lines

The lines of files that match an expression are written, counted, or looked for.
-/

namespace Fettle.Shell

/-- What a search is asked for. -/
structure Search where
  /-- The expressions, one of which must match. -/
  patterns : List Bytes := []
  /-- The files. -/
  names : List Bytes := []
  /-- Whether only the status tells of a match. -/
  quiet : Bool := false
  /-- Whether the lines are wanted that do not match. -/
  inverted : Bool := false
  /-- Whether the lines are counted. -/
  counted : Bool := false
  /-- Whether the lines have numbers. -/
  numbered : Bool := false
  /-- Whether case does not matter. -/
  ignoreCase : Bool := false
  /-- Whether the expressions stand for themselves. -/
  literal : Bool := false
  /-- Whether the expressions are in the extended spelling. -/
  extended : Bool := false
  /-- Whether all of the line must match. -/
  whole : Bool := false
  /-- Whether only the names of files are written. -/
  namesOnly : Bool := false
  /-- Whether the names of files are left out. -/
  nameless : Bool := false
  /-- Whether nothing is said of files that cannot be read. -/
  silent : Bool := false
deriving Inhabited

namespace Search

/-- Set an option without value. -/
def option (s : Search) : Char → Option Search
  | 'q' => some { s with quiet := true }
  | 'v' => some { s with inverted := true }
  | 'c' => some { s with counted := true }
  | 'n' => some { s with numbered := true }
  | 'i' => some { s with ignoreCase := true }
  | 'F' => some { s with literal := true }
  | 'E' => some { s with extended := true }
  | 'G' => some s
  | 'x' => some { s with whole := true }
  | 'l' => some { s with namesOnly := true }
  | 'h' => some { s with nameless := true }
  | 's' => some { s with silent := true }
  | _ => none

/-- Set options that are written together; one that takes an expression is the last. -/
def options (s : Search) : List Char → Option (Search × Bool)
  | [] => some (s, false)
  | ['e'] => some (s, true)
  | 'e' :: cs => some ({ s with patterns := s.patterns ++ [cs] }, false)
  | c :: cs => do options (← s.option c) cs

/-- Read the arguments. The first that is no option is the expression, unless an option gives
one. -/
def read : Nat → Search → List Bytes → List Bytes → Option Search
  | 0, _, _, _ => none
  | fuel + 1, s, names, args =>
    match args with
    | [] => finish s names
    | a :: rest =>
      if a = ['-', '-'] then finish s (names ++ rest)
      else
        match a with
        | '-' :: c :: cs =>
          match s.options (c :: cs) with
          | none => none
          | some (s, false) => read fuel s names rest
          | some (s, true) =>
            match rest with
            | [] => none
            | p :: rest => read fuel { s with patterns := s.patterns ++ [p] } names rest
        | _ => read fuel s (names ++ [a]) rest
where
  /-- Tell the expression from the files. -/
  finish (s : Search) (operands : List Bytes) : Option Search :=
    match s.patterns, operands with
    | [], [] => none
    | [], p :: names => some { s with patterns := [p], names }
    | _, names => some { s with names }

/-- The expression that is searched for; each line of a pattern is an alternative. -/
def regex (s : Search) : Option Regex := do
  let rs ← (s.patterns.flatMap (Text.cutAt '\n')).mapM fun p =>
    if s.literal then some (Regex.ofLiteral p) else Regex.ofText? s.extended p
  let rs := if s.whole then rs.map fun r => .seq .start (.seq r .stop) else rs
  match rs with
  | [] => none
  | r :: rs => some (rs.foldl .alt r)

/-- The lines of a text that are wanted, with their numbers. -/
def wanted (s : Search) (r : Regex) (text : Bytes) : List (Bytes × Nat) :=
  ((markedLines text).map (·.1)).zipIdx.filter fun (l, _) =>
    r.occursIn s.ignoreCase l != s.inverted

/-- What is written about a file. -/
def report (s : Search) (r : Regex) (name text : Bytes) : Bool × Bytes :=
  let found := s.wanted r text
  let shown := if name = ['-'] then "(standard input)".toList else name
  let label := if s.names.length ≤ 1 ∨ s.nameless then [] else shown ++ [':']
  let out :=
    if s.quiet then []
    else if s.namesOnly then (if found.isEmpty then [] else shown ++ ['\n'])
    else if s.counted then label ++ Nat.toDigits 10 found.length ++ ['\n']
    else found.flatMap fun (l, i) =>
      label ++ (if s.numbered then Nat.toDigits 10 (i + 1) ++ [':'] else []) ++ l ++ ['\n']
  (!found.isEmpty, out)

/-- Search the files. The status is zero if a line is found, one if none is, and two if something
is wrong, unless a quiet search finds a line. -/
def run (s : Search) (r : Regex) (g : Given) : Effect :=
  let step (state : Bool × Effect) (file : Bytes × Except Files.FileError Bytes) : Bool × Effect :=
    let (found, e) := state
    match file.2 with
    | .ok text =>
      let (here, out) := s.report r file.1 text
      (found || here, { e with output := e.output ++ out })
    | .error why =>
      (found, { e with
        status := 2
        errors := e.errors ++
          (if s.silent then [] else complain "grep" [file.1, why.reason.toList]) })
  let (found, e) := (g.contents s.names).foldl step (false, { rest := g.restAfter s.names })
  { e with
    status :=
      if s.quiet && found then 0 else if e.status ≠ 0 then e.status else if found then 0 else 1 }

end Search

/-- Search the lines of files. -/
def grep : Utility := fun args g =>
  match Search.read (args.length + 1) {} [] args with
  | none => g.refuse 2 "Usage: grep [OPTION]... PATTERNS [FILE]...\n".toList
  | some s =>
    match s.regex with
    | none => g.refuse 2 (complain "grep" ["Invalid regular expression".toList])
    | some r => s.run r g

end Fettle.Shell
