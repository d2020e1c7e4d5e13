import Fettle.Shell.Expression
import Fettle.Shell.Utility

/-!
# Editing lines

A stream of lines is edited by commands. Every line goes through all commands; a command may be
limited to a line, to lines that match an expression, or to those between two such places.
-/

namespace Fettle.Shell

/-- A place in a stream of lines. -/
inductive Address where
  /-- A line, by its number. -/
  | line (n : Nat)
  /-- The last line. -/
  | last
  /-- Lines that match an expression. -/
  | matching (r : Regex) (ignoreCase : Bool)
deriving DecidableEq, Inhabited, Repr

/-- A part of what replaces a match. -/
inductive Substitute where
  /-- Text that stands for itself. -/
  | text (cs : Bytes)
  /-- What a group matched; the group zero is the whole match. -/
  | group (n : Nat)
deriving DecidableEq, Inhabited, Repr

/-- Matches that are replaced. -/
structure Substitution where
  /-- What is looked for. -/
  pattern : Regex
  /-- What replaces it. -/
  replacement : List Substitute
  /-- Which match is the first that is replaced. -/
  nth : Nat := 1
  /-- Whether all later matches are replaced too. -/
  everywhere : Bool := false
  /-- Whether the line is written if something is replaced. -/
  prints : Bool := false
  /-- Whether case does not matter. -/
  ignoreCase : Bool := false
deriving DecidableEq, Inhabited, Repr

/-- What is done with a line. -/
inductive Action where
  /-- Matches are replaced. -/
  | substitute (s : Substitution)
  /-- The line is dropped. -/
  | delete
  /-- The line is written. -/
  | print
  /-- Nothing more is read. -/
  | quit (status : Nat)
  /-- The number of the line is written. -/
  | number
  /-- Characters are replaced by others. -/
  | transliterate (table : List (Char × Char))
  /-- A line is written after this one. -/
  | append (text : Bytes)
  /-- A line is written before this one. -/
  | insert (text : Bytes)
  /-- A line is written instead of this one. -/
  | change (text : Bytes)
deriving DecidableEq, Inhabited, Repr

/-- A command of the editor. -/
structure Edition where
  /-- The line, or the first of some lines. -/
  first : Option Address := none
  /-- The last of some lines. -/
  last : Option Address := none
  /-- Whether all other lines are meant. -/
  negated : Bool := false
  /-- What is done. -/
  action : Action
deriving DecidableEq, Inhabited, Repr

/-! ## Reading commands -/

/-- Take text up to a sign that no backslash stands before. A sign after a backslash stands for
itself, and the letter `n` for a line feed if `feeds` says so. -/
def untilSign (sign : Char) (feeds : Bool) : Nat → List Char → Option (Bytes × List Char)
  | 0, _ => none
  | fuel + 1, cs =>
    match cs with
    | [] => none
    | '\\' :: c :: rest => do
      let (more, after) ← untilSign sign feeds fuel rest
      let keepsSlash := c = '&' ∨ c = '\\'
      if c = sign then some (if keepsSlash then '\\' :: c :: more else c :: more, after)
      else if c = 'n' ∧ feeds then some ('\n' :: more, after)
      else some ('\\' :: c :: more, after)
    | c :: rest =>
      if c = sign then some ([], rest)
      else do
        let (more, after) ← untilSign sign feeds fuel rest
        some (c :: more, after)

/-- The parts of a replacement. -/
def substitutes : Nat → List Char → List Substitute
  | 0, _ => []
  | fuel + 1, cs =>
    match cs with
    | [] => []
    | '&' :: rest => .group 0 :: substitutes fuel rest
    | '\\' :: c :: rest =>
      if c.isDigit then .group (c.toNat - '0'.toNat) :: substitutes fuel rest
      else if c = 'n' then .text ['\n'] :: substitutes fuel rest
      else if c = 't' then .text ['\t'] :: substitutes fuel rest
      else .text [c] :: substitutes fuel rest
    | c :: rest => .text [c] :: substitutes fuel rest

/-- Read the flags of a substitution. -/
def substitutionFlags : Nat → Substitution → List Char → Option (Substitution × List Char)
  | 0, s, cs => some (s, cs)
  | fuel + 1, s, cs =>
    match cs with
    | 'g' :: rest => substitutionFlags fuel { s with everywhere := true } rest
    | 'p' :: rest => substitutionFlags fuel { s with prints := true } rest
    | 'i' :: rest | 'I' :: rest => substitutionFlags fuel { s with ignoreCase := true } rest
    | c :: _ =>
      if c.isDigit then do
        let ds := cs.takeWhile Char.isDigit
        let nth ← naturalOf? ds
        if nth = 0 then none else substitutionFlags fuel { s with nth } (cs.drop ds.length)
      else some (s, cs)
    | [] => some (s, [])

/-- Read an address, if one comes next. -/
def address (extended : Bool) (cs : List Char) : Option (Option Address × List Char) :=
  match cs with
  | '$' :: rest => some (some .last, rest)
  | '/' :: rest => do
    let (p, rest) ← untilSign '/' true (rest.length + 1) rest
    let r ← Regex.ofText? extended p
    match rest with
    | 'I' :: rest => some (some (.matching r true), rest)
    | rest => some (some (.matching r false), rest)
  | cs =>
    let ds := cs.takeWhile Char.isDigit
    some ((naturalOf? ds).map .line, cs.drop ds.length)

/-- Read the text of a command that writes a line, up to the end of its own line. -/
def lineText (cs : List Char) : Bytes × List Char :=
  let isGap (c : Char) := c == ' ' || c == '\t'
  let cs := cs.dropWhile isGap
  let cs := match cs with
    | '\\' :: rest => (match rest.dropWhile isGap with
      | '\n' :: rest => rest
      | _ => rest)
    | cs => cs
  let text := cs.takeWhile (· ≠ '\n')
  (text ++ ['\n'], cs.drop text.length)

/-- Read what is done. -/
def action (extended : Bool) (cs : List Char) : Option (Action × List Char) :=
  match cs with
  | 's' :: sign :: rest => do
    let (p, rest) ← untilSign sign true (rest.length + 1) rest
    let (r, rest) ← untilSign sign false (rest.length + 1) rest
    let pattern ← Regex.ofText? extended p
    let (s, rest) ← substitutionFlags (rest.length + 1)
      { pattern, replacement := substitutes (r.length + 1) r } rest
    some (.substitute s, rest)
  | 'y' :: sign :: rest => do
    let (a, rest) ← untilSign sign true (rest.length + 1) rest
    let (b, rest) ← untilSign sign true (rest.length + 1) rest
    if a.length = b.length then some (.transliterate (a.zip b), rest) else none
  | 'd' :: rest => some (.delete, rest)
  | 'p' :: rest => some (.print, rest)
  | '=' :: rest => some (.number, rest)
  | 'q' :: rest =>
    let ds := (rest.dropWhile (· == ' ')).takeWhile Char.isDigit
    some (.quit ((naturalOf? ds).getD 0), (rest.dropWhile (· == ' ')).drop ds.length)
  | 'a' :: rest =>
    let (text, rest) := lineText rest
    some (.append text, rest)
  | 'i' :: rest =>
    let (text, rest) := lineText rest
    some (.insert text, rest)
  | 'c' :: rest =>
    let (text, rest) := lineText rest
    some (.change text, rest)
  | _ => none

/-- Read commands, which semicolons or line breaks separate. -/
def editions (extended : Bool) : Nat → List Char → Option (List Edition)
  | 0, _ => none
  | fuel + 1, cs =>
    let isGap (c : Char) := c == ' ' || c == '\t'
    let cs := cs.dropWhile fun c => isGap c || c == '\n' || c == ';'
    match cs with
    | [] => some []
    | '#' :: rest => editions extended fuel (rest.dropWhile (· ≠ '\n'))
    | cs => do
      let (first, cs) ← address extended cs
      let (last, cs) ← match first, cs with
        | some _, ',' :: cs => do
          let (last, cs) ← address extended (cs.dropWhile isGap)
          if last.isNone then none else some (last, cs)
        | _, cs => some (none, cs)
      let cs := cs.dropWhile isGap
      let (negated, cs) := match cs with
        | '!' :: cs => (true, cs.dropWhile isGap)
        | cs => (false, cs)
      let (action, cs) ← action extended cs
      let cs := cs.dropWhile isGap
      match cs with
      | [] => some [{ first, last, negated, action }]
      | c :: _ =>
        if c = ';' ∨ c = '\n' ∨ c = '#' then
          let more ← editions extended fuel cs
          some ({ first, last, negated, action } :: more)
        else none

/-! ## Replacing -/

/-- What replaces a match. -/
def replacementText (rs : List Substitute) (whole : Bytes) (groups : List (Nat × Bytes)) : Bytes :=
  rs.flatMap fun r => match r with
    | .text cs => cs
    | .group 0 => whole
    | .group n => (groups.lookup n).getD []

/-- Replace matches from a place on. `count` matches have come before, and `touching` tells that
one of them ends here, where an empty match does not count. -/
def substituteFrom (s : Substitution) :
    Nat → Nat → Bool → Regex.Place → Bytes × Bool
  | 0, _, _, p => (p.rest, false)
  | fuel + 1, count, touching, p =>
    match s.pattern.find s.ignoreCase p with
    | none => (p.rest, false)
    | some (a, b) =>
      let before := p.rest.take (a.index - p.index)
      if a.index = b.index ∧ touching ∧ a.index = p.index then
        match p.rest with
        | [] => ([], false)
        | c :: _ =>
          let (more, changed) := substituteFrom s fuel count false p.next
          (c :: more, changed)
      else
        let whole := a.rest.take (b.index - a.index)
        let count := count + 1
        let replaces := count = s.nth ∨ (s.everywhere ∧ s.nth < count)
        let text := if replaces then replacementText s.replacement whole b.groups else whole
        if replaces ∧ !s.everywhere then (before ++ text ++ b.rest, true)
        else if a.index = b.index then
          match b.rest with
          | [] => (before ++ text, replaces)
          | c :: _ =>
            let (more, changed) := substituteFrom s fuel count false b.next
            (before ++ text ++ c :: more, replaces || changed)
        else
          let (more, changed) := substituteFrom s fuel count true b
          (before ++ text ++ more, replaces || changed)

/-- Replace matches in a line, and tell whether there were any. -/
def Substitution.run (s : Substitution) (line : Bytes) : Bytes × Bool :=
  substituteFrom s (2 * line.length + 2) 0 false ⟨0, line, []⟩

/-! ## Running -/

/-- A line on its way through the commands. -/
structure Cycle where
  /-- The line. -/
  text : Bytes
  /-- What is written so far, each piece with the mark whether a line feed ends it. -/
  written : List (Bytes × Bool) := []
  /-- What is written after the line. -/
  after : List (Bytes × Bool) := []
  /-- Whether the line has been dropped. -/
  dropped : Bool := false
  /-- The status with which the editor ends after this line. -/
  ends : Option Nat := none
deriving Inhabited

/-- Whether an address meets a line. -/
def Address.meets (a : Address) (number : Nat) (isLast : Bool) (text : Bytes) : Bool :=
  match a with
  | line n => n == number
  | last => isLast
  | matching r ignoreCase => r.occursIn ignoreCase text

/-- Whether a command is meant for a line, and whether its range goes on after it. -/
def Edition.meets (e : Edition) (isOpen : Bool) (number : Nat) (isLast : Bool) (text : Bytes) :
    Bool × Bool :=
  match e.first, e.last with
  | none, _ => (!e.negated, false)
  | some a, none => (a.meets number isLast text != e.negated, false)
  | some a, some b =>
    if isOpen then
      match b with
      | .line n => if n < number then (e.negated, false) else (!e.negated, number < n)
      | b => (!e.negated, !b.meets number isLast text)
    else if a.meets number isLast text then
      match b with
      | .line n => (!e.negated, number < n)
      | _ => (!e.negated, true)
    else (e.negated, false)

/-- Do something with a line. -/
def Action.run (ended : Bool) (number : Nat) (c : Cycle) : Action → Cycle
  | substitute s =>
    let (text, changed) := s.run c.text
    let written := if changed && s.prints then c.written ++ [(text, ended)] else c.written
    { c with text := if changed then text else c.text, written }
  | delete => { c with dropped := true }
  | print => { c with written := c.written ++ [(c.text, ended)] }
  | quit status => { c with ends := some status }
  | Action.number => { c with written := c.written ++ [(Nat.toDigits 10 number, true)] }
  | transliterate table => { c with text := c.text.map fun d => (table.lookup d).getD d }
  | append text => { c with after := c.after ++ [(text.dropLast, true)] }
  | insert text => { c with written := c.written ++ [(text.dropLast, true)] }
  | change text => { c with written := c.written ++ [(text.dropLast, true)], dropped := true }

/-- Take a line through the commands. Each command comes with the mark whether its range is open. -/
def applyEditions (number : Nat) (isLast ended : Bool) :
    List (Edition × Bool) → Cycle → List (Edition × Bool) × Cycle
  | [], c => ([], c)
  | (e, isOpen) :: es, c =>
    let (meant, isOpen) := e.meets isOpen number isLast c.text
    let c := if meant then e.action.run ended number c else c
    if c.dropped ∨ c.ends.isSome then ((e, isOpen) :: es, c)
    else
      let (es, c) := applyEditions number isLast ended es c
      ((e, isOpen) :: es, c)

/-- Take lines through the commands: what is written, and the status. -/
def editLines (quiet : Bool) :
    Nat → List (Edition × Bool) → List (Bytes × Bool) → List (Bytes × Bool) × Nat
  | _, _, [] => ([], 0)
  | number, es, (text, ended) :: rest =>
    let (es, c) := applyEditions number rest.isEmpty ended es { text }
    let line := if quiet || c.dropped then [] else [(c.text, ended)]
    let out := c.written ++ line ++ c.after
    match c.ends with
    | some status => (out, status)
    | none =>
      let (more, status) := editLines quiet (number + 1) es rest
      (out ++ more, status)

/-- Pieces of output one after another; only the last may lack its line feed. -/
def joinPieces : List (Bytes × Bool) → Bytes
  | [] => []
  | [(text, ended)] => if ended then text ++ ['\n'] else text
  | (text, _) :: rest => text ++ '\n' :: joinPieces rest

/-- What the editor is asked for. -/
structure Editing where
  /-- The commands. -/
  scripts : List Bytes := []
  /-- The files. -/
  names : List Bytes := []
  /-- Whether only what is asked for is written. -/
  quiet : Bool := false
  /-- Whether the expressions are in the extended spelling. -/
  extended : Bool := false
deriving Inhabited

/-- Read the arguments of the editor. The first that is no option holds the commands, unless an
option gives them. -/
def Editing.read : Nat → Editing → List Bytes → List Bytes → Option Editing
  | 0, _, _, _ => none
  | fuel + 1, e, names, args =>
    match args with
    | [] =>
      match e.scripts, names with
      | [], [] => none
      | [], s :: names => some { e with scripts := [s], names }
      | _, names => some { e with names }
    | a :: rest =>
      match String.ofList a with
      | "-n" => read fuel { e with quiet := true } names rest
      | "-E" | "-r" => read fuel { e with extended := true } names rest
      | "--" => read fuel e (names ++ rest) []
      | "-e" | "-ne" =>
        match rest with
        | [] => none
        | s :: rest =>
          let quiet := e.quiet || a.length == 3
          read fuel { e with scripts := e.scripts ++ [s], quiet } names rest
      | _ =>
        if a.head? = some '-' ∧ a ≠ ['-'] then none else read fuel e (names ++ [a]) rest

/-- Edit lines. -/
def sed : Utility := fun args g =>
  match Editing.read (2 * args.length + 2) {} [] args with
  | none => g.refuse 1 "Usage: sed [OPTION]... \x7bscript\x7d [input-file]...\n".toList
  | some e =>
    let script := ['\n'].intercalate e.scripts
    match editions e.extended (script.length + 2) script with
    | none => g.refuse 1 (complain "sed" ["invalid command".toList])
    | some es =>
      let files := g.contents e.names
      let lines := files.flatMap fun (_, content) =>
        match content with
        | .ok text => markedLines text
        | .error _ => []
      let errors := files.flatMap fun (name, content) =>
        match content with
        | .ok _ => []
        | .error why =>
          let what := if why = .isDirectory then "read error on " else "can't read "
          complain "sed" [what.toList ++ name, why.reason.toList]
      let (out, status) := editLines e.quiet 1 (es.map (·, false)) lines
      { status := if status = 0 ∧ !errors.isEmpty then 2 else status
        output := joinPieces out
        errors
        rest := g.restAfter e.names }

end Fettle.Shell
