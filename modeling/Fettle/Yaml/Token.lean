import Fettle.Yaml.Scalar
import Fettle.Text.Octets

/-!
# Reading YAML: tokens

A text is cut into tokens. Outside brackets the structure shows in the indentation, which becomes
tokens of its own: a collection starts where a key or an entry stands further to the right than
the collection around it, and ends where a line begins further to the left. A key is recognized
only by the colon after it, so the place where a key may have begun is remembered, and the tokens
for the key are put there once the colon comes.
-/

namespace Fettle.Yaml

/-- A token of a text. -/
inductive Token where
  /-- The end of the text. -/
  | streamEnd
  /-- The mark that starts a document. -/
  | documentStart
  /-- The mark that ends a document. -/
  | documentEnd
  /-- The version of the format that a document is written in. -/
  | version (major minor : Nat)
  /-- What a tag handle stands for. -/
  | handle (name meaning : List Char)
  /-- Indented entries start. -/
  | blockSequenceStart
  /-- Indented keys and values start. -/
  | blockMappingStart
  /-- An indented collection ends. -/
  | blockEnd
  /-- Bracketed entries start. -/
  | flowSequenceStart
  /-- Bracketed entries end. -/
  | flowSequenceEnd
  /-- Bracketed keys and values start. -/
  | flowMappingStart
  /-- Bracketed keys and values end. -/
  | flowMappingEnd
  /-- The hyphen before an entry. -/
  | blockEntry
  /-- The comma between entries. -/
  | flowEntry
  /-- A key follows. -/
  | key
  /-- A value follows. -/
  | value
  /-- A name for the node that follows. -/
  | anchor (name : List Char)
  /-- A node that was named before. -/
  | alias (name : List Char)
  /-- A tag: a handle and what follows it. -/
  | tag (handle suffix : List Char)
  /-- A scalar. -/
  | scalar (style : Style) (text : List Char)
deriving DecidableEq, Inhabited, Repr

/-- A token with the places where it starts and stops. -/
structure Placed where
  /-- The token. -/
  token : Token
  /-- Where it starts. -/
  start : Mark
  /-- Where it stops. -/
  stop : Mark
deriving DecidableEq, Inhabited, Repr

/-! ## Tags and directives -/

/-- A character of tags. Brackets and commas belong only to tags that are written in full. -/
def isTagChar (full : Bool) (c : Char) : Bool :=
  isNameChar c || ";/?:@&=+$.!~*'()".toList.contains c || (full && ",[]".toList.contains c)

/-- The bytes that percent signs with two hexadecimal digits write, at most a number of them. -/
def percentBytes : Nat → Cursor → Option (List UInt8 × Cursor)
  | 0, c => some ([], c)
  | n + 1, c =>
    match c.rest with
    | '%' :: a :: b :: _ => do
      let value ← hexNumber [a, b]
      let (more, c) ← percentBytes n (c.skipMany 3)
      some (value.toUInt8 :: more, c)
    | _ => none

/-- The number of bytes of a character, told by its first byte. -/
def bytesAfterFirst (n : Nat) : Option Nat :=
  if n < 0x80 then some 0
  else if 0xC0 ≤ n ∧ n < 0xE0 then some 1
  else if 0xE0 ≤ n ∧ n < 0xF0 then some 2
  else if 0xF0 ≤ n ∧ n < 0xF8 then some 3
  else none

/-- Take a character that percent signs write byte by byte. -/
def takePercent (c : Cursor) : Option (List Char × Cursor) := do
  let (first, _) ← percentBytes 1 c
  let more ← bytesAfterFirst (first.headD 0).toNat
  let (bytes, c) ← percentBytes (more + 1) c
  if bytes.tail.all fun b => 0x80 ≤ b && b < 0xC0 then
    some ((Text.decodeLossy bytes).toList, c)
  else none

/-- Take the characters of a tag. -/
def tagRun (full : Bool) : Nat → List Char → Cursor → Option (List Char × Cursor)
  | 0, run, c => some (run, c)
  | fuel + 1, run, c =>
    match c.peek with
    | none => some (run, c)
    | some d =>
      if d == '%' then
        match takePercent c with
        | none => none
        | some (ds, c) => tagRun full fuel (run ++ ds) c
      else if isTagChar full d then tagRun full fuel (run ++ [d]) c.skip
      else some (run, c)

/-- Take the characters of a tag, of which there must be some. -/
def tagText (full : Bool) (c : Cursor) : Option (List Char × Cursor) := do
  let (run, after) ← tagRun full c.rest.length [] c
  if run.isEmpty then none else some (run, after)

/-- Take what stands at the start of a tag: an exclamation mark, and then a name with an
exclamation mark after it, if they are there. -/
def tagHandle (c : Cursor) : Option (List Char × Cursor) :=
  if c.peek ≠ some '!' then none
  else
    let (name, c) := c.skip.takeWhile isNameChar
    if c.peek = some '!' then some ('!' :: name ++ ['!'], c.skip)
    else some ('!' :: name, c)

/-- Take a tag, of which the exclamation mark comes next. -/
def takeTag (inFlow : Bool) (c : Cursor) : Option (Token × Cursor) := do
  let (token, c) ←
    if c.peekAt 1 = some '<' then do
      let (run, c) ← tagText true (c.skipMany 2)
      if c.peek = some '>' then some (Token.tag [] run, c.skip) else none
    else do
      let (handle, c) ← tagHandle c
      if handle.length ≥ 2 ∧ handle.getLast? = some '!' then
        let (run, c) ← tagText false c
        some (.tag handle run, c)
      else
        let (run, c) ← tagRun false c.rest.length handle.tail c
        some (if run.isEmpty then .tag [] ['!'] else .tag ['!'] run, c)
  if (inFlow && c.peek == some ',') || endsWord c.peek then some (token, c) else none

/-- Take a number of a version. -/
def versionNumber (c : Cursor) : Option (Nat × Cursor) :=
  let (ds, c) := c.takeWhile Char.isDigit
  if ds.isEmpty ∨ 9 < ds.length then none
  else some (ds.foldl (fun n d => n * 10 + (d.toNat - '0'.toNat)) 0, c)

/-- Take what follows the name of a directive. -/
def directiveBody (name : List Char) (c : Cursor) : Option (Token × Cursor) :=
  if name = "YAML".toList then do
    let (major, c) ← versionNumber c.skipGap
    if c.peek ≠ some '.' then none
    else
      let (minor, c) ← versionNumber c.skip
      some (.version major minor, c)
  else if name = "TAG".toList then do
    let (handle, c) ← tagHandle c.skipGap
    if (handle ≠ ['!'] ∧ handle.getLast? ≠ some '!') ∨ !c.peek.any isGap then none
    else
      let (meaning, c) ← tagText true c.skipGap
      if endsWord c.peek then some (.handle handle meaning, c) else none
  else none

/-- Take a directive, of which the percent sign comes next. -/
def takeDirective (c : Cursor) : Option (Token × Cursor) := do
  let (name, c) := c.skip.takeWhile isNameChar
  if name.isEmpty ∨ !endsWord c.peek then none
  else
    let (token, c) ← directiveBody name c
    let after := c.skipGap.skipComment
    if endsLine after.peek then some (token, after) else none

/-- Take a name, of which the sign comes next. -/
def takeName (c : Cursor) : Option (List Char × Cursor) :=
  let (name, c) := c.skip.takeWhile isNameChar
  let ends := endsWord c.peek || c.peek.any ("?:,]\x7d%@\x60".toList.contains ·)
  if name.isEmpty ∨ !ends then none else some (name, c)

/-! ## Tokens -/

/-- A place where a key may have begun. -/
structure Opening where
  /-- Whether only a key can stand there. -/
  required : Bool
  /-- The number of tokens before it. -/
  place : Nat
  /-- The place in the text. -/
  mark : Mark
deriving Inhabited

/-- A text that is cut into tokens, in the middle of the work. -/
structure Lexer where
  /-- What is not cut yet. -/
  cursor : Cursor
  /-- The tokens so far. -/
  tokens : Array Placed := #[]
  /-- The number of open brackets. -/
  depth : Nat := 0
  /-- The column of the innermost indented collection. -/
  indent : Int := -1
  /-- The columns of the collections around it. -/
  outer : List Int := []
  /-- Where a key may have begun inside the innermost bracket. -/
  opening : Option Opening := none
  /-- Where keys may have begun around it. -/
  outerOpenings : List (Option Opening) := []
  /-- Whether a key may begin here. -/
  keyAllowed : Bool := true
deriving Inhabited

namespace Lexer

/-- Where the work has come to. -/
def mark (l : Lexer) : Mark := l.cursor.mark

/-- Whether a bracket is open. -/
def inFlow (l : Lexer) : Bool := 0 < l.depth

/-- Put a token at the end. -/
def push (l : Lexer) (token : Token) (start stop : Mark) : Lexer :=
  { l with tokens := l.tokens.push ⟨token, start, stop⟩ }

/-- Put a token that stops at a cursor at the end, and go on from there. -/
def pushTo (l : Lexer) (token : Token) (c : Cursor) : Lexer :=
  { (l.push token l.mark c.mark) with cursor := c }

/-- Put a token with no extent before others. -/
def insertAt (l : Lexer) (place : Nat) (token : Token) (mark : Mark) : Lexer :=
  { l with tokens := l.tokens.insertIdxIfInBounds place ⟨token, mark, mark⟩ }

/-- Skip gaps, comments and line breaks before a token. A tab is skipped only where no key may
begin. Outside brackets a key may begin on a new line. -/
def skipBlank : Nat → Lexer → Lexer
  | 0, l => l
  | fuel + 1, l =>
    let c := l.cursor
    let c := if c.mark.index = 0 ∧ c.peek = some '\uFEFF' then c.skip else c
    let c := (c.takeWhile fun d => d == ' ' || (d == '\t' && (l.inFlow || !l.keyAllowed))).2
    let c := c.skipComment
    if c.peek.any isBreak then
      skipBlank fuel
        { l with cursor := c.takeBreak.2, keyAllowed := l.keyAllowed || !l.inFlow }
    else { l with cursor := c }

/-- Close the indented collections to the right of a column. -/
def unindent (column : Int) (l : Lexer) : Lexer :=
  if l.inFlow then l else go l.outer l
where
  /-- Close collections, of which the columns around the innermost are given. -/
  go : List Int → Lexer → Lexer
    | [], l => l
    | around :: outer, l =>
      if column < l.indent then
        go outer { l.push .blockEnd l.mark l.mark with indent := around, outer }
      else l

/-- Open an indented collection at a column, if the one around it is further to the left. Its
token goes before others. -/
def indentAt (column : Nat) (place : Nat) (token : Token) (mark : Mark) (l : Lexer) : Lexer :=
  if !l.inFlow && l.indent < (column : Int) then
    { l.insertAt place token mark with indent := column, outer := l.indent :: l.outer }
  else l

/-- Give up the key that may have begun. Where only a key can stand this is a fault. -/
def forgetOpening (l : Lexer) : Option Lexer :=
  if l.opening.any (·.required) then none else some { l with opening := none }

/-- Remember that a key may begin here. -/
def saveOpening (l : Lexer) : Option Lexer :=
  if l.keyAllowed then do
    let required := !l.inFlow && l.indent == (l.mark.column : Int)
    let l ← l.forgetOpening
    some { l with opening := some ⟨required, l.tokens.size, l.mark⟩ }
  else some l

/-- The key that ends here, if one may have begun. It stands on one line and is not longer than
1024 characters. -/
def keyBefore (l : Lexer) : Option (Option Opening) :=
  match l.opening with
  | none => some none
  | some o =>
    if o.mark.line < l.mark.line ∨ o.mark.index + 1024 < l.mark.index then
      if o.required then none else some none
    else some (some o)

/-- Read a mark of three signs. -/
def documentMarker (token : Token) (l : Lexer) : Option Lexer := do
  let l ← (l.unindent (-1)).forgetOpening
  some ({ l with keyAllowed := false }.pushTo token (l.cursor.skipMany 3))

/-- Read an opening bracket. -/
def openBracket (token : Token) (l : Lexer) : Option Lexer := do
  let l ← l.saveOpening
  some ({ l with
    outerOpenings := l.opening :: l.outerOpenings
    opening := none
    depth := l.depth + 1
    keyAllowed := true }.pushTo token l.cursor.skip)

/-- Read a closing bracket. -/
def closeBracket (token : Token) (l : Lexer) : Option Lexer := do
  let l ← l.forgetOpening
  let l := match l.outerOpenings with
    | [] => l
    | opening :: outerOpenings => { l with opening, outerOpenings, depth := l.depth - 1 }
  some ({ l with keyAllowed := false }.pushTo token l.cursor.skip)

/-- Read a comma. -/
def comma (l : Lexer) : Option Lexer := do
  let l ← l.forgetOpening
  some ({ l with keyAllowed := true }.pushTo .flowEntry l.cursor.skip)

/-- Read the hyphen before an entry. -/
def entry (l : Lexer) : Option Lexer :=
  if !l.inFlow && !l.keyAllowed then none
  else do
    let l := l.indentAt l.mark.column l.tokens.size .blockSequenceStart l.mark
    let l ← l.forgetOpening
    some ({ l with keyAllowed := true }.pushTo .blockEntry l.cursor.skip)

/-- Read the question mark before a key. -/
def explicitKey (l : Lexer) : Option Lexer :=
  if !l.inFlow && !l.keyAllowed then none
  else do
    let l := l.indentAt l.mark.column l.tokens.size .blockMappingStart l.mark
    let l ← l.forgetOpening
    some ({ l with keyAllowed := !l.inFlow }.pushTo .key l.cursor.skip)

/-- Read the colon before a value. If a key ends here, its tokens go where it began. -/
def colon (l : Lexer) : Option Lexer := do
  match ← l.keyBefore with
  | some o =>
    let l := l.insertAt o.place .key o.mark
    let l := l.indentAt o.mark.column o.place .blockMappingStart o.mark
    some ({ l with opening := none, keyAllowed := false }.pushTo .value l.cursor.skip)
  | none =>
    if !l.inFlow && !l.keyAllowed then none
    else
      let l := l.indentAt l.mark.column l.tokens.size .blockMappingStart l.mark
      some ({ l with keyAllowed := !l.inFlow }.pushTo .value l.cursor.skip)

/-- Read a name with its sign, a tag or a quoted scalar: what may be a key or begin one. -/
def simple (read : Cursor → Option (Token × Cursor)) (l : Lexer) : Option Lexer := do
  let l ← l.saveOpening
  let (token, c) ← read l.cursor
  some ({ l with keyAllowed := false }.pushTo token c)

/-- Read a plain scalar. After a line break a key may begin. -/
def plainScalar (l : Lexer) : Option Lexer := do
  let l ← l.saveOpening
  let (text, broken, c) ← plain l.inFlow (l.indent + 1) l.cursor
  some ({ l with keyAllowed := broken }.pushTo (.scalar .plain text) c)

/-- Read a block scalar, after which a key may begin. -/
def blockScalar (style : Style) (l : Lexer) : Option Lexer := do
  let l ← l.forgetOpening
  let (text, c) ← block (style == .literal) l.indent l.cursor
  some ({ l with keyAllowed := true }.pushTo (.scalar style text) c)

/-- Read a directive. -/
def directive (l : Lexer) : Option Lexer := do
  let l ← (l.unindent (-1)).forgetOpening
  let (token, c) ← takeDirective l.cursor
  some ({ l with keyAllowed := false }.pushTo token c)

/-- Whether a plain scalar may begin with a character before another one. -/
def startsPlain (inFlow : Bool) (c : Char) (next : Option Char) : Bool :=
  !(endsWord (some c) || "-?:,[]\x7b\x7d#&*!|>'\"%@\x60".toList.contains c)
    || (c == '-' && !next.any isGap)
    || (!inFlow && (c == '?' || c == ':') && !endsWord next)

/-- Read a scalar between quotes. -/
def takeQuoted (style : Style) (c : Cursor) : Option (Token × Cursor) := do
  let (text, c) ← quoted (style == .singleQuoted) c
  some (.scalar style text, c)

/-- Read the token that begins with a character. -/
def token (d : Char) (l : Lexer) : Option Lexer :=
  let c := l.cursor
  let ends := endsWord (c.peekAt 1)
  if c.mark.column = 0 ∧ d = '%' then l.directive
  else if c.atMarker '-' then l.documentMarker .documentStart
  else if c.atMarker '.' then l.documentMarker .documentEnd
  else if d = '[' then l.openBracket .flowSequenceStart
  else if d = '\x7b' then l.openBracket .flowMappingStart
  else if d = ']' then l.closeBracket .flowSequenceEnd
  else if d = '\x7d' then l.closeBracket .flowMappingEnd
  else if d = ',' then l.comma
  else if d = '-' ∧ ends then l.entry
  else if d = '?' ∧ (l.inFlow ∨ ends) then l.explicitKey
  else if d = ':' ∧ (l.inFlow ∨ ends) then l.colon
  else if d = '*' then l.simple fun c => do
    let (name, c) ← takeName c
    some (.alias name, c)
  else if d = '&' then l.simple fun c => do
    let (name, c) ← takeName c
    some (.anchor name, c)
  else if d = '!' then l.simple (takeTag l.inFlow)
  else if d = '|' ∧ !l.inFlow then l.blockScalar .literal
  else if d = '>' ∧ !l.inFlow then l.blockScalar .folded
  else if d = '\'' then l.simple (takeQuoted .singleQuoted)
  else if d = '"' then l.simple (takeQuoted .doubleQuoted)
  else if startsPlain l.inFlow d (c.peekAt 1) then l.plainScalar
  else none

/-- End the text. An unfinished line counts as a line. -/
def finish (l : Lexer) : Option (List Placed) := do
  let m := l.mark
  let m := if m.column = 0 then m else { m with line := m.line + 1, column := 0 }
  let l ← ({ l with cursor := { l.cursor with mark := m } }.unindent (-1)).forgetOpening
  some (l.push .streamEnd m m).tokens.toList

/-- Cut the rest of the text into tokens. -/
def run : Nat → Lexer → Option (List Placed)
  | 0, _ => none
  | fuel + 1, l =>
    let l := l.skipBlank (l.cursor.rest.length + 1)
    let l := l.unindent l.mark.column
    match l.cursor.peek with
    | none => l.finish
    | some d =>
      match l.token d with
      | none => none
      | some l => run fuel l

end Lexer

/-- The tokens of a text, if it can be cut into such. A byte order mark at the start is passed
over. -/
def tokens (text : String) : Option (List Placed) :=
  let cs := match text.toList with
    | '\uFEFF' :: cs => cs
    | cs => cs
  if cs.all isAllowed then Lexer.run (cs.length + 1) { cursor := ⟨cs, {}⟩ } else none

end Fettle.Yaml
