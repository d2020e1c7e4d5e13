import Fettle.Yaml.Cursor

/-!
# Reading YAML: scalars

A scalar is written plain, between single or double quotes, or as a block of lines. In the first
three a line break between two words counts as a space, and further line breaks are kept; in a
block the lines are kept or folded, and the indentation tells where the block ends.
-/

namespace Fettle.Yaml

/-- How a scalar is written. -/
inductive Style where
  /-- Without quotes. -/
  | plain
  /-- Between single quotes. -/
  | singleQuoted
  /-- Between double quotes. -/
  | doubleQuoted
  /-- As a block whose lines are kept. -/
  | literal
  /-- As a block whose lines are folded. -/
  | folded
deriving DecidableEq, Inhabited, Repr

/-- What stands between two runs of a scalar. -/
structure Between where
  /-- The gap, if no line break has come. -/
  gap : List Char := []
  /-- The first line break. -/
  first : List Char := []
  /-- The line breaks after it. -/
  more : List Char := []
  /-- Whether a line break has come. -/
  broken : Bool := false
deriving Inhabited

namespace Between

/-- What is kept of it in the scalar. -/
def text (b : Between) : List Char :=
  if b.broken then
    if b.first.head? = some '\n' then (if b.more.isEmpty then [' '] else b.more)
    else b.first ++ b.more
  else b.gap

/-- Take gaps and line breaks. A tab that stands where a line must be indented to a column is a
fault. -/
def take (indent : Int) : Nat → Between → Cursor → Option (Between × Cursor)
  | 0, b, c => some (b, c)
  | fuel + 1, b, c =>
    match c.peek with
    | some d =>
      if isGap d then
        if b.broken then
          if d == '\t' && (c.mark.column : Int) < indent then none
          else take indent fuel b c.skip
        else take indent fuel { b with gap := b.gap ++ [d] } c.skip
      else if isBreak d then
        let (kept, c) := c.takeBreak
        if b.broken then take indent fuel { b with more := b.more ++ kept } c
        else take indent fuel { b with gap := [], first := kept, broken := true } c
      else some (b, c)
    | none => some (b, c)

end Between

/-! ## Plain scalars -/

/-- The characters that end a plain scalar inside brackets. -/
def isFlowIndicator (c : Char) : Bool :=
  c == ',' || c == '[' || c == ']' || c == '\x7b' || c == '\x7d'

/-- Take a run of a plain scalar, up to the end of a word or an indicator. -/
def plainRun (inFlow : Bool) : Nat → List Char → Cursor → Option (List Char × Cursor)
  | 0, run, c => some (run.reverse, c)
  | fuel + 1, run, c =>
    match c.peek with
    | none => some (run.reverse, c)
    | some d =>
      if endsWord (some d) then some (run.reverse, c)
      else
        let next := c.peekAt 1
        let clash := match next with
          | some e => isFlowIndicator e || e == '?'
          | none => false
        if inFlow && d == ':' && clash then none
        else if (d == ':' && endsWord next) || (inFlow && isFlowIndicator d) then
          some (run.reverse, c)
        else plainRun inFlow fuel (d :: run) c.skip

/-- Go on with a plain scalar whose lines must be indented to a column. The result tells whether
a line break came last. -/
def plainFrom (inFlow : Bool) (indent : Int) :
    Nat → List Char → Between → Cursor → Option (List Char × Bool × Cursor)
  | 0, text, b, c => some (text, b.broken, c)
  | fuel + 1, text, b, c =>
    if c.atDocumentMarker || c.peek == some '#' then some (text, b.broken, c)
    else do
      let (run, c) ← plainRun inFlow c.rest.length [] c
      let (text, b) := if run.isEmpty then (text, b) else (text ++ b.text ++ run, {})
      match c.peek with
      | none => some (text, b.broken, c)
      | some d =>
        if !endsWord (some d) then some (text, b.broken, c)
        else
          let (b, c) ← b.take indent c.rest.length c
          if !inFlow && (c.mark.column : Int) < indent then some (text, b.broken, c)
          else plainFrom inFlow indent fuel text b c

/-- Take a plain scalar. -/
def plain (inFlow : Bool) (indent : Int) (c : Cursor) : Option (List Char × Bool × Cursor) :=
  plainFrom inFlow indent (c.rest.length + 1) [] {} c

/-! ## Quoted scalars -/

/-- The number that hexadecimal digits write, if they are such. -/
def hexNumber (ds : List Char) : Option Nat :=
  ds.foldlM (fun n c => do
    let d ← if c.isDigit then some (c.toNat - '0'.toNat)
      else if 'a' ≤ c ∧ c ≤ 'f' then some (c.toNat - 'a'.toNat + 10)
      else if 'A' ≤ c ∧ c ≤ 'F' then some (c.toNat - 'A'.toNat + 10)
      else none
    some (n * 16 + d)) 0

/-- The character that a letter stands for after a backslash. -/
def letterEscape : Char → Option Char
  | '0' => some '\x00'
  | 'a' => some '\x07'
  | 'b' => some '\x08'
  | 't' => some '\t'
  | '\t' => some '\t'
  | 'n' => some '\n'
  | 'v' => some '\x0b'
  | 'f' => some '\x0c'
  | 'r' => some '\r'
  | 'e' => some '\x1b'
  | ' ' => some ' '
  | '"' => some '"'
  | '/' => some '/'
  | '\\' => some '\\'
  | 'N' => some '\u0085'
  | '_' => some '\u00a0'
  | 'L' => some '\u2028'
  | 'P' => some '\u2029'
  | _ => none

/-- The number of hexadecimal digits after a letter that follows a backslash. -/
def escapeLength : Char → Option Nat
  | 'x' => some 2
  | 'u' => some 4
  | 'U' => some 8
  | _ => none

/-- Take an escape, of which the backslash comes next. -/
def takeEscape (c : Cursor) : Option (Char × Cursor) := do
  let letter ← c.peekAt 1
  match letterEscape letter with
  | some d => some (d, c.skipMany 2)
  | none => do
    let n ← escapeLength letter
    let c := c.skipMany 2
    let ds := c.rest.take n
    if ds.length ≠ n then none
    else
      let value ← hexNumber ds
      if (0xD800 ≤ value ∧ value ≤ 0xDFFF) ∨ 0x10FFFF < value then none
      else some (Char.ofNat value, c.skipMany n)

/-- Take a run of a quoted scalar, up to the end of a word or of the scalar. The result tells
whether an escaped line break ended the run. -/
def quotedRun (single : Bool) : Nat → List Char → Cursor → Option (List Char × Bool × Cursor)
  | 0, run, c => some (run.reverse, false, c)
  | fuel + 1, run, c =>
    match c.peek with
    | none => some (run.reverse, false, c)
    | some d =>
      if endsWord (some d) then some (run.reverse, false, c)
      else if single then
        if d == '\'' then
          if c.peekAt 1 = some '\'' then quotedRun single fuel ('\'' :: run) (c.skipMany 2)
          else some (run.reverse, false, c)
        else quotedRun single fuel (d :: run) c.skip
      else if d == '"' then some (run.reverse, false, c)
      else if d == '\\' then
        if (c.peekAt 1).any isBreak then some (run.reverse, true, c.skip.takeBreak.2)
        else
          match takeEscape c with
          | none => none
          | some (e, c) => quotedRun single fuel (e :: run) c
      else quotedRun single fuel (d :: run) c.skip

/-- Go on with a quoted scalar, of which the opening quote is taken. -/
def quotedFrom (single : Bool) : Nat → List Char → Cursor → Option (List Char × Cursor)
  | 0, _, _ => none
  | fuel + 1, text, c =>
    if c.atDocumentMarker || c.peek.isNone then none
    else do
      let (run, escaped, c) ← quotedRun single c.rest.length [] c
      let text := text ++ run
      if c.peek = some (if single then '\'' else '"') then some (text, c.skip)
      else
        let (b, c) ← Between.take (-1) c.rest.length { broken := escaped } c
        quotedFrom single fuel (text ++ b.text) c

/-- Take a quoted scalar, of which the opening quote comes next. -/
def quoted (single : Bool) (c : Cursor) : Option (List Char × Cursor) :=
  quotedFrom single (c.rest.length + 1) [] c.skip

/-! ## Block scalars -/

/-- What becomes of the line breaks at the end of a block. -/
inductive Chomping where
  /-- One is kept. -/
  | clip
  /-- None is kept. -/
  | strip
  /-- All are kept. -/
  | keep
deriving DecidableEq, Inhabited, Repr

/-- The header of a block: what becomes of its last line breaks, and how far it is indented if
that is said. -/
def blockHeader (c : Cursor) : Option (Chomping × Option Nat × Cursor) :=
  let sign (c : Cursor) : Option (Chomping × Cursor) :=
    match c.peek with
    | some '+' => some (.keep, c.skip)
    | some '-' => some (.strip, c.skip)
    | _ => none
  let digit (c : Cursor) : Option (Option Nat × Cursor) :=
    match c.peek with
    | some d =>
      if d == '0' then none
      else if d.isDigit then some (some (d.toNat - '0'.toNat), c.skip)
      else some (none, c)
    | none => some (none, c)
  match sign c with
  | some (chomping, c) => do
    let (n, c) ← digit c
    some (chomping, n, c)
  | none => do
    let (n, c) ← digit c
    match n, sign c with
    | some _, some (chomping, c) => some (chomping, n, c)
    | _, _ => some (.clip, n, c)

/-- Take the indentation and the empty lines before a line of a block. Without a known
indentation every space is taken, and the widest line is remembered. -/
def blockBreaks (indent : Option Nat) :
    Nat → Nat → List Char → Cursor → Option (Nat × List Char × Cursor)
  | 0, widest, breaks, c => some (widest, breaks, c)
  | fuel + 1, widest, breaks, c =>
    let isIndentation (column : Nat) : Bool := indent.all (column < ·)
    let spaces := (c.rest.takeWhile (· == ' ')).length
    let spaces := match indent with
      | none => spaces
      | some n => min spaces (n - c.mark.column)
    let c := c.skipMany spaces
    let widest := max widest c.mark.column
    if isIndentation c.mark.column && c.peek == some '\t' then none
    else if c.peek.any isBreak then
      let (kept, c) := c.takeBreak
      blockBreaks indent fuel widest (breaks ++ kept) c
    else some (widest, breaks, c)

/-- Go on with a block whose lines are indented by `indent`. `first` is the break after the line
before, `more` the breaks after that, and `gapBefore` tells whether that line began with a gap.
The result is the text with what is left of the breaks. -/
def blockFrom (literal : Bool) (indent : Nat) :
    Nat → List Char → List Char → List Char → Bool → Cursor →
      Option (List Char × List Char × List Char × Cursor)
  | 0, text, first, more, _, c => some (text, first, more, c)
  | fuel + 1, text, first, more, gapBefore, c =>
    if c.mark.column = indent ∧ c.peek.isSome then do
      let gapHere := c.peek.any isGap
      let folds := !literal && first.head? == some '\n' && !gapBefore && !gapHere
      let text := text ++
        (if folds then (if more.isEmpty then [' '] else []) else first) ++ more
      let (line, c) := c.takeWhile fun _ => true
      let (first, c) := c.takeBreak
      let (_, more, c) ← blockBreaks (some indent) (c.rest.length + 1) 0 [] c
      blockFrom literal indent fuel (text ++ line) first more gapHere c
    else some (text, first, more, c)

/-- Take a block scalar, of which the indicator comes next, below a parent that is indented by
`parent`. -/
def block (literal : Bool) (parent : Int) (c : Cursor) : Option (List Char × Cursor) := do
  let (chomping, increment, c) ← blockHeader c.skip
  let c := c.skipGap.skipComment
  if !endsLine c.peek then none
  else
    let c := c.takeBreak.2
    let stated : Option Nat := increment.map fun n => (max parent 0).toNat + n
    let (widest, more, c) ← blockBreaks stated (c.rest.length + 1) 0 [] c
    let indent := stated.getD (max widest (max (parent + 1) 1).toNat)
    let (text, first, more, c) ←
      blockFrom literal indent (c.rest.length + 1) [] [] more false c
    let tail := match chomping with
      | .strip => []
      | .clip => first
      | .keep => first ++ more
    some (text ++ tail, c)

end Fettle.Yaml
