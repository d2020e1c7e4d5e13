import Fettle.Data.Complaint
import Fettle.Json.Value

/-!
# Reading JSON: faults, places and tokens

A reader takes characters from the front of a text and leaves the rest, or stops with a fault. A
fault keeps what was left of the text when it was noticed, and how many bytes of that were looked
at; from these its place in the whole text is computed, a line counted from one and the number of
bytes since the beginning of that line.
-/

namespace Fettle.Json

open Data (Complaint Found)

/-- What is wrong with a JSON text. -/
inductive Cause where
  /-- The text ends inside a list. -/
  | endInList
  /-- The text ends inside an object. -/
  | endInObject
  /-- The text ends inside a string. -/
  | endInString
  /-- The text ends where a value should stand. -/
  | endInValue
  /-- No colon follows a name. -/
  | expectedColon
  /-- Neither a comma nor the end follows an element. -/
  | expectedListEnd
  /-- Neither a comma nor the end follows a member. -/
  | expectedObjectEnd
  /-- A word is misspelt. -/
  | expectedWord
  /-- No value stands where one should. -/
  | expectedValue
  /-- A backslash is followed by no known escape. -/
  | invalidEscape
  /-- A number is misspelt. -/
  | invalidNumber
  /-- A number is too large. -/
  | numberOutOfRange
  /-- A control character stands in a string. -/
  | controlCharacter
  /-- A name is not a string. -/
  | nameNotString
  /-- One half of a pair of surrogates stands in the wrong place. -/
  | loneSurrogate
  /-- The second half of a pair of surrogates is missing. -/
  | unfinishedSurrogate
  /-- A comma stands before an end. -/
  | trailingComma
  /-- Something follows where nothing should. -/
  | trailingCharacters
  /-- The text is well formed, and its data does not fit. -/
  | data (complaint : Complaint)
deriving DecidableEq, Inhabited, Repr

/-- The words of JSON messages. -/
def wording : Data.Wording := ⟨"null", Decimal.compactText⟩

/-- The message of a cause. -/
def Cause.message : Cause → String
  | endInList => "EOF while parsing a list"
  | endInObject => "EOF while parsing an object"
  | endInString => "EOF while parsing a string"
  | endInValue => "EOF while parsing a value"
  | expectedColon => "expected \x60:\x60"
  | expectedListEnd => "expected \x60,\x60 or \x60]\x60"
  | expectedObjectEnd => "expected \x60,\x60 or \x60\x7d\x60"
  | expectedWord => "expected ident"
  | expectedValue => "expected value"
  | invalidEscape => "invalid escape"
  | invalidNumber => "invalid number"
  | numberOutOfRange => "number out of range"
  | controlCharacter => "control character (\\u0000-\\u001F) found while parsing a string"
  | nameNotString => "key must be a string"
  | loneSurrogate => "lone leading surrogate in hex escape"
  | unfinishedSurrogate => "unexpected end of hex escape"
  | trailingComma => "trailing comma"
  | trailingCharacters => "trailing characters"
  | data complaint => complaint.message wording

/-- A cause, what was left of the text when it was noticed, and the number of bytes of that which
were looked at. -/
structure Fault where
  /-- What is wrong. -/
  cause : Cause
  /-- What was left of the text. -/
  rest : List Char
  /-- How many bytes of the rest were looked at; past its end there are none. -/
  ahead : Nat
deriving DecidableEq, Inhabited, Repr

/-- A place in a text: a line counted from one, and the bytes since its beginning. -/
structure Place where
  /-- The line, counted from one. -/
  line : Nat
  /-- The number of bytes between the beginning of the line and the place. -/
  column : Nat
deriving DecidableEq, Inhabited, Repr

namespace Place

/-- The place after one more character. -/
def advance (p : Place) (c : Char) : Place :=
  if c = '\n' then ⟨p.line + 1, 0⟩ else ⟨p.line, p.column + c.utf8Size⟩

/-- The place after some bytes of a text, which may end inside a character. -/
def advanceBytes : Place → Nat → List Char → Place
  | p, 0, _ => p
  | p, _, [] => p
  | p, n + 1, c :: cs =>
    if c.utf8Size ≤ n + 1 then advanceBytes (p.advance c) (n + 1 - c.utf8Size) cs
    else ⟨p.line, p.column + (n + 1)⟩

end Place

/-- The place of a fault in a text. -/
def Fault.place (text : List Char) (f : Fault) : Place :=
  let before := text.take (text.length - f.rest.length)
  (before.foldl Place.advance ⟨1, 0⟩).advanceBytes f.ahead f.rest

/-- The message of a fault, with its place. -/
def Fault.message (text : List Char) (f : Fault) : String :=
  let p := f.place text
  s!"{f.cause.message} at line {p.line} column {p.column}"

/-- A reader takes a value from the front of a text. -/
abbrev Reader (α : Type) := StateT (List Char) (Except Fault) α

/-- A bound on the number of steps of a reader, one for each element. Since a step takes at least
one character, the characters that are left measure out enough steps. -/
abbrev Clock := List Char

/-- As many steps as there are characters left, and one to notice the end. -/
def clockFor (rest : List Char) : Clock := ' ' :: rest

/-- Stop before the next character. -/
def failHere {α : Type} (cause : Cause) : Reader α := fun rest => .error ⟨cause, rest, 0⟩

/-- Stop after the first byte of the next character. -/
def failNext {α : Type} (cause : Cause) : Reader α := fun rest => .error ⟨cause, rest, 1⟩

/-- Stop because the data does not fit. -/
def complain {α : Type} (complaint : Complaint) : Reader α := failHere (.data complaint)

/-- The characters that may stand between tokens. -/
def isSpace (c : Char) : Bool := c == ' ' || c == '\n' || c == '\t' || c == '\r'

/-- Skip what may stand between tokens, and look at the next character. -/
def nextToken : Reader (Option Char) := fun rest =>
  let rest := rest.dropWhile isSpace
  .ok (rest.head?, rest)

/-- Take one character. -/
def take : Reader Unit := fun rest => .ok ((), rest.tail)

/-- Take the remaining letters of a word. -/
def word : List Char → Reader Unit
  | [] => pure ()
  | c :: cs => fun rest =>
    match rest with
    | [] => .error ⟨.endInValue, [], 0⟩
    | d :: rest' => if d = c then word cs rest' else .error ⟨.expectedWord, rest, 1⟩

/-- The colon between a name and its value. -/
def colon : Reader Unit := do
  match ← nextToken with
  | some ':' => take
  | some _ => failNext .expectedColon
  | none => failNext .endInObject

/-! ## Strings -/

/-- The value of a hexadecimal digit. -/
def hexValue (c : Char) : Option Nat :=
  if '0' ≤ c ∧ c ≤ '9' then some (c.toNat - '0'.toNat)
  else if 'a' ≤ c ∧ c ≤ 'f' then some (c.toNat - 'a'.toNat + 10)
  else if 'A' ≤ c ∧ c ≤ 'F' then some (c.toNat - 'A'.toNat + 10)
  else none

/-- The number written in four hexadecimal digits, if the text begins with four. -/
def fourHex : List Char → Option Nat
  | a :: b :: c :: d :: _ => do
    let a ← hexValue a
    let b ← hexValue b
    let c ← hexValue c
    let d ← hexValue d
    pure (((a * 16 + b) * 16 + c) * 16 + d)
  | _ => none

/-- The number of bytes of a text. -/
def byteCount (cs : List Char) : Nat := cs.foldl (fun n c => n + c.utf8Size) 0

/-- Take four hexadecimal digits. -/
def takeFourHex : Reader Nat := fun rest =>
  match fourHex rest with
  | some n => .ok (n, rest.drop 4)
  | none =>
    if byteCount (rest.take 4) < 4 then .error ⟨.endInString, [], 0⟩
    else .error ⟨.invalidEscape, rest, 4⟩

/-- Take the character that must stand between the halves of a pair of surrogates. -/
def takeBetween (expected : Char) : Reader Unit := fun rest =>
  match rest with
  | [] => .error ⟨.endInString, [], 0⟩
  | c :: rest' => if c = expected then .ok ((), rest') else .error ⟨.unfinishedSurrogate, rest, 1⟩

/-- The character of a numeric escape, of which the letter `u` is taken. A number that is the
first half of a pair of surrogates must be followed by an escape with the second half. -/
def numericEscape : Reader Char := do
  let n ← takeFourHex
  if 0xDC00 ≤ n ∧ n ≤ 0xDFFF then failHere .loneSurrogate
  else if n < 0xD800 ∨ 0xDBFF < n then pure (Char.ofNat n)
  else do
    takeBetween '\\'
    takeBetween 'u'
    let m ← takeFourHex
    if m < 0xDC00 ∨ 0xDFFF < m then failHere .loneSurrogate
    else pure (Char.ofNat ((n - 0xD800) * 1024 + (m - 0xDC00) + 0x10000))

/-- The character that a letter stands for after a backslash. -/
def letterEscape : Char → Option Char
  | '"' => some '"'
  | '\\' => some '\\'
  | '/' => some '/'
  | 'b' => some '\x08'
  | 'f' => some '\x0c'
  | 'n' => some '\n'
  | 'r' => some '\r'
  | 't' => some '\t'
  | _ => none

/-- The character of an escape, of which the backslash is taken. -/
def escape : Reader Char := fun rest =>
  match rest with
  | [] => .error ⟨.endInString, [], 0⟩
  | c :: rest' =>
    match letterEscape c with
    | some d => .ok (d, rest')
    | none => if c = 'u' then numericEscape rest' else .error ⟨.invalidEscape, rest, 1⟩

/-- Go on with a string of which some characters are read; the last one comes first. -/
def stringFrom : Clock → List Char → Reader (List Char)
  | [], _ => failHere .endInString
  | _ :: clock, before => fun rest =>
    match rest with
    | [] => .error ⟨.endInString, [], 0⟩
    | c :: rest' =>
      if c = '"' then .ok (before.reverse, rest')
      else if c = '\\' then
        match escape rest' with
        | .error f => .error f
        | .ok (d, rest'') => stringFrom clock (d :: before) rest''
      else if c.toNat < 32 then .error ⟨.controlCharacter, rest, 1⟩
      else stringFrom clock (c :: before) rest'

/-- The characters of a string, of which the opening quote is taken. -/
def stringBody : Reader String := fun rest =>
  match stringFrom (clockFor rest) [] rest with
  | .error f => .error f
  | .ok (cs, rest) => .ok (String.ofList cs, rest)

/-! ## Numbers -/

/-- The largest number of 64 bits. -/
def maxNat64 : Nat := 18446744073709551615

/-- Append decimal digits to a number as long as it fits in 64 bits: the number, and how many
digits were used. -/
def gather : Nat → List Char → Nat × Nat
  | n, [] => (n, 0)
  | n, c :: cs =>
    let m := n * 10 + (c.toNat - '0'.toNat)
    if maxNat64 < m then (n, 0)
    else
      let (r, used) := gather m cs
      (r, used + 1)

/-- Take the digits at the front. -/
def digits : Reader (List Char) := fun rest =>
  .ok (rest.takeWhile Char.isDigit, rest.dropWhile Char.isDigit)

/-- The number `significand * 10 ^ exponent`, formed from the significand and a power of ten that
are each rounded, by one more rounding. A number beyond the largest is a fault. -/
def scaled (negative : Bool) (significand : Nat) (exponent : Int) : Reader Number := do
  let base := Decimal.Binary64.ofNat negative significand
  if significand = 0 then pure (.float base)
  else if exponent.natAbs ≤ 308 then
    let power := Decimal.Binary64.ofNat false (Nat.pow 10 exponent.natAbs)
    let x := Decimal.Binary64.combine negative (exponent < 0) base power
    if x.isFinite then pure (.float x) else failHere .numberOutOfRange
  else if 0 ≤ exponent then failHere .numberOutOfRange
  else
    -- Divide by the largest power in steps.
    let largest := Decimal.Binary64.ofNat false (Nat.pow 10 308)
    let once := Decimal.Binary64.combine negative true base largest
    let left := exponent.natAbs - 308
    if left ≤ 308 then
      let power := Decimal.Binary64.ofNat false (Nat.pow 10 left)
      pure (.float (Decimal.Binary64.combine negative true once power))
    else pure (.float (.finite negative 0 0))

/-- The largest exponent that is looked at. -/
def maxExponent : Nat := 2147483647

/-- How many digits of an exponent can be read before it becomes too large, if it does. -/
def exponentOverflow (ds : List Char) : Option Nat :=
  let values := (List.range ds.length).map fun i =>
    (ds.take (i + 1)).foldl (fun n c => n * 10 + (c.toNat - '0'.toNat)) 0
  (values.findIdx? (maxExponent < ·)).map (· + 1)

/-- The exponent of a number, of which the letter is not yet taken, and with it the number. -/
def withExponent (negative : Bool) (significand : Nat) (shift : Int) : Reader Number := do
  take
  let below ← (fun rest => match rest with
    | '+' :: rest => .ok (false, rest)
    | '-' :: rest => .ok (true, rest)
    | rest => .ok (false, rest) : Reader Bool)
  let start ← get
  let ds ← digits
  if ds.isEmpty then
    if start.isEmpty then failHere .endInValue else failNext .invalidNumber
  else
    match exponentOverflow ds with
    | some used =>
      if significand ≠ 0 ∧ below = false then
        (fun _ => .error ⟨.numberOutOfRange, start.drop used, 0⟩ : Reader Number)
      else pure (.float (.finite negative 0 0))
    | none =>
      let e := ds.foldl (fun n c => n * 10 + (c.toNat - '0'.toNat)) 0
      scaled negative significand (if below then shift - e else shift + e)

/-- The digits after the decimal point, which is not yet taken, and what follows them. -/
def withFraction (negative : Bool) (significand : Nat) (shift : Int) : Reader Number := do
  take
  let ds ← digits
  let next := (← get).head?
  if ds.isEmpty then
    if next.isNone then failNext .endInValue else failNext .invalidNumber
  else
    let (n, used) := gather significand ds
    if next = some 'e' ∨ next = some 'E' then withExponent negative n (shift - used)
    else scaled negative n (shift - used)

/-- A number whose sign is taken. -/
def number (negative : Bool) : Reader Number := do
  let start ← get
  let ds ← digits
  let next := (← get).head?
  match ds with
  | [] => (fun _ => .error ⟨if start.isEmpty then .endInValue else .invalidNumber, start, 1⟩ :
      Reader Number)
  | '0' :: _ :: _ => (fun _ => .error ⟨.invalidNumber, start.drop 1, 1⟩ : Reader Number)
  | ds =>
    let (n, used) := gather 0 ds
    let dropped := ds.length - used
    if next = some '.' then withFraction negative n dropped
    else if next = some 'e' ∨ next = some 'E' then withExponent negative n dropped
    else if dropped ≠ 0 then scaled negative n dropped
    else if negative then
      if n = 0 ∨ Nat.pow 2 63 < n then pure (.float (Decimal.Binary64.ofNat true n))
      else pure (.negative n)
    else pure (.natural n)

/-! ## Values of an unexpected kind -/

/-- How a number is named where something else is expected. -/
def Number.found : Number → Found
  | natural n => .integer n
  | negative n => .integer (-(n : Int))
  | float x => .float x

/-- Stop at a value of the wrong kind. A word, a number or a string is taken first, so that a
fault of its own comes before; a list or an object is left where it stands. -/
def wrongKind {α : Type} (expected : String) : Reader α := do
  match (← get).head? with
  | some 'n' => take; word ['u', 'l', 'l']; complain (.wrongType .nothing expected)
  | some 't' => take; word ['r', 'u', 'e']; complain (.wrongType (.boolean true) expected)
  | some 'f' => take; word ['a', 'l', 's', 'e']; complain (.wrongType (.boolean false) expected)
  | some '-' => take; complain (.wrongType (← number true).found expected)
  | some '"' => take; complain (.wrongType (.text (← stringBody)) expected)
  | some '[' => complain (.wrongType .list expected)
  | some '\x7b' => complain (.wrongType .members expected)
  | some c =>
    if c.isDigit then complain (.wrongType (← number false).found expected)
    else failNext .expectedValue
  | none => failNext .expectedValue

end Fettle.Json
