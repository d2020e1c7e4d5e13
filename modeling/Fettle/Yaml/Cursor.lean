/-!
# Reading YAML: places in a text

A cursor is a place in a text with the characters after it. Lines and columns are counted from
zero, a column in characters. A line ends at a line feed, a carriage return, both together, or one
of three Unicode line breaks.
-/

namespace Fettle.Yaml

/-- A place in a text. -/
structure Mark where
  /-- The number of characters before it. -/
  index : Nat := 0
  /-- The line, counted from zero. -/
  line : Nat := 0
  /-- The column, counted in characters from zero. -/
  column : Nat := 0
deriving DecidableEq, Inhabited, Repr

/-- A character that ends a line. -/
def isBreak (c : Char) : Bool :=
  c == '\n' || c == '\r' || c == '\u0085' || c == '\u2028' || c == '\u2029'

/-- A character that separates words on a line. -/
def isGap (c : Char) : Bool := c == ' ' || c == '\t'

/-- A line ends here: the text ends, or a line break comes next. -/
def endsLine : Option Char → Bool
  | none => true
  | some c => isBreak c

/-- A word ends here: the line ends, or a gap comes next. -/
def endsWord : Option Char → Bool
  | none => true
  | some c => isBreak c || isGap c

/-- A character of names: a letter or digit of ASCII, a low line or a hyphen. -/
def isNameChar (c : Char) : Bool := c.isAlphanum || c == '_' || c == '-'

/-- The characters that may stand in a text. -/
def isAllowed (c : Char) : Bool :=
  let n := c.toNat
  n == 9 || n == 10 || n == 13 || (0x20 ≤ n && n ≤ 0x7E) || n == 0x85 ||
    (0xA0 ≤ n && n ≤ 0xD7FF) || (0xE000 ≤ n && n ≤ 0xFFFD) || 0x10000 ≤ n

/-- A place in a text with the characters after it. -/
structure Cursor where
  /-- The characters after the place. -/
  rest : List Char
  /-- The place. -/
  mark : Mark := {}
deriving Inhabited

namespace Cursor

/-- The next character. -/
def peek (c : Cursor) : Option Char := c.rest.head?

/-- The character `n` places on. -/
def peekAt (c : Cursor) (n : Nat) : Option Char := c.rest[n]?

/-- The cursor after one character of the line. -/
def skip (c : Cursor) : Cursor :=
  match c.rest with
  | [] => c
  | _ :: rest => ⟨rest, { c.mark with index := c.mark.index + 1, column := c.mark.column + 1 }⟩

/-- The cursor after some characters of the line. -/
def skipMany : Nat → Cursor → Cursor
  | 0, c => c
  | n + 1, c => skipMany n c.skip

/-- The cursor after a line break, and how the break is kept in a scalar. Without a line break
there is nothing to skip or keep. -/
def takeBreak (c : Cursor) : List Char × Cursor :=
  match c.rest with
  | '\r' :: '\n' :: rest => (['\n'], ⟨rest, ⟨c.mark.index + 2, c.mark.line + 1, 0⟩⟩)
  | d :: rest =>
    if isBreak d then
      (if d == '\u2028' || d == '\u2029' then [d] else ['\n'],
        ⟨rest, ⟨c.mark.index + 1, c.mark.line + 1, 0⟩⟩)
    else ([], c)
  | [] => ([], c)

/-- Skip the characters of a line that satisfy a test; what is skipped comes first. -/
def takeWhile (test : Char → Bool) (c : Cursor) : List Char × Cursor :=
  let run := c.rest.takeWhile fun d => test d && !isBreak d
  (run, skipMany run.length c)

/-- Skip the gap before the next word. -/
def skipGap (c : Cursor) : Cursor := (c.takeWhile isGap).2

/-- Skip a comment, if one begins here. -/
def skipComment (c : Cursor) : Cursor :=
  if c.peek = some '#' then (c.takeWhile fun _ => true).2 else c

/-- A line of three equal signs begins here: the mark between documents. -/
def atMarker (sign : Char) (c : Cursor) : Bool :=
  c.mark.column == 0 && c.rest.take 3 == [sign, sign, sign] && endsWord (c.peekAt 3)

/-- A document begins or ends here. -/
def atDocumentMarker (c : Cursor) : Bool := c.atMarker '-' || c.atMarker '.'

end Cursor

end Fettle.Yaml
