import Fettle.Shell.Utility

/-!
# Writing texts

Two utilities write their arguments: one with blanks between them, the other as a format says. In
both a backslash begins an escape, and an escape of octal digits stands for a byte.
-/

namespace Fettle.Shell

/-- The number that octal digits spell. -/
def octal (ds : List Char) : Nat := ds.foldl (fun n d => n * 8 + (d.toNat - '0'.toNat)) 0

/-- An octal digit. -/
def isOctal (c : Char) : Bool := '0' ≤ c && c ≤ '7'

/-- The character that a letter stands for after a backslash. -/
def letterEscape : Char → Option Char
  | 'a' => some '\x07'
  | 'b' => some '\x08'
  | 'f' => some '\x0c'
  | 'n' => some '\n'
  | 'r' => some '\r'
  | 't' => some '\t'
  | 'v' => some '\x0b'
  | '\\' => some '\\'
  | _ => none

/-- Expand the escapes in an argument, in which octal digits follow a zero. The mark tells whether
an escape ended all output. -/
def expandEscapes : Nat → Bytes → Bytes × Bool
  | 0, cs => (cs, false)
  | fuel + 1, cs =>
    match cs with
    | [] => ([], false)
    | '\\' :: 'c' :: _ => ([], true)
    | '\\' :: '0' :: rest =>
      let ds := (rest.takeWhile isOctal).take 3
      let (more, ended) := expandEscapes fuel (rest.drop ds.length)
      (Char.ofNat (octal ds % 256) :: more, ended)
    | '\\' :: c :: rest =>
      let (more, ended) := expandEscapes fuel rest
      match letterEscape c with
      | some d => (d :: more, ended)
      | none => ('\\' :: c :: more, ended)
    | c :: rest =>
      let (more, ended) := expandEscapes fuel rest
      (c :: more, ended)

/-- Write the arguments with blanks between them and a line feed after them. -/
def echo : Utility := fun args g =>
  let (line, args) := match args with
    | ['-', 'n'] :: rest => (false, rest)
    | args => (true, args)
  let (text, ended) := expandEscapes (args.flatten.length + args.length + 1)
    ([' '].intercalate args)
  { output := if line && !ended then text ++ ['\n'] else text, rest := g.input }

/-! ## Formats -/

/-- How a value is laid out. -/
structure Layout where
  /-- Whether it stands at the left of its space. -/
  left : Bool := false
  /-- Whether the space is filled with zeros. -/
  zeros : Bool := false
  /-- Whether numbers above zero have a sign. -/
  plus : Bool := false
  /-- The least width. -/
  width : Nat := 0
  /-- The greatest length of a text, or the least number of digits. -/
  places : Option Nat := none
deriving DecidableEq, Inhabited, Repr

/-- A part of a format. -/
inductive Directive where
  /-- Text that stands for itself. -/
  | text (cs : Bytes)
  /-- A value, by the letter of its kind. -/
  | value (l : Layout) (kind : Char)
deriving DecidableEq, Inhabited, Repr

/-- Take the signs of a layout. -/
def layoutSigns (l : Layout) : List Char → Layout × List Char
  | '-' :: cs => layoutSigns { l with left := true } cs
  | '0' :: cs => layoutSigns { l with zeros := true } cs
  | '+' :: cs => layoutSigns { l with plus := true } cs
  | ' ' :: cs => layoutSigns l cs
  | '#' :: cs => layoutSigns l cs
  | cs => (l, cs)

/-- Take a layout and the letter after it. -/
def layout (cs : List Char) : Option (Layout × Char × List Char) := do
  let (l, cs) := layoutSigns {} cs
  let width := cs.takeWhile Char.isDigit
  let cs := cs.drop width.length
  let l := { l with width := (naturalOf? width).getD 0 }
  let (l, cs) := match cs with
    | '.' :: cs =>
      let ds := cs.takeWhile Char.isDigit
      ({ l with places := some ((naturalOf? ds).getD 0) }, cs.drop ds.length)
    | cs => (l, cs)
  match cs with
  | kind :: cs => some (l, kind, cs)
  | [] => none

/-- The parts of a format. -/
def directives : Nat → Bytes → List Directive
  | 0, _ => []
  | fuel + 1, cs =>
    match cs with
    | [] => []
    | '%' :: '%' :: rest => .text ['%'] :: directives fuel rest
    | '%' :: rest =>
      match layout rest with
      | some (l, kind, rest) => .value l kind :: directives fuel rest
      | none => [.text ['%']]
    | '\\' :: c :: rest =>
      if isOctal c then
        let ds := ((c :: rest).takeWhile isOctal).take 3
        .text [Char.ofNat (octal ds % 256)] :: directives fuel ((c :: rest).drop ds.length)
      else
        match letterEscape c with
        | some d => .text [d] :: directives fuel rest
        | none => .text ['\\', c] :: directives fuel rest
    | c :: rest => .text [c] :: directives fuel rest

/-- Put a text into its space. -/
def Layout.pad (l : Layout) (mayZero : Bool) (cs : Bytes) : Bytes :=
  let n := l.width - cs.length
  if l.left then cs ++ List.replicate n ' '
  else if l.zeros && mayZero then
    match cs with
    | '-' :: ds => '-' :: List.replicate n '0' ++ ds
    | ds => List.replicate n '0' ++ ds
  else List.replicate n ' ' ++ cs

/-- A number in a base, with its sign and at least so many digits as asked for. -/
def Layout.digits (l : Layout) (base : Nat) (n : Int) : Bytes :=
  let ds := Nat.toDigits base n.natAbs
  let ds := List.replicate (l.places.getD 0 - ds.length) '0' ++ ds
  if n < 0 then '-' :: ds else if l.plus then '+' :: ds else ds

/-- Write a value as a letter says. The mark tells whether an escape ended all output. -/
def Layout.write (l : Layout) (kind : Char) (arg : Bytes) : Bytes × Bool :=
  let n := (numberOperand arg).getD 0
  let inBase (base : Nat) := l.pad l.places.isNone (l.digits base n)
  match kind with
  | 's' => (l.pad false (match l.places with
    | some k => arg.take k
    | none => arg), false)
  | 'b' =>
    let (text, ended) := expandEscapes (arg.length + 1) arg
    (l.pad false text, ended)
  | 'c' => (l.pad false (arg.take 1), false)
  | 'd' | 'i' | 'u' => (inBase 10, false)
  | 'o' => (inBase 8, false)
  | 'x' => (inBase 16, false)
  | 'X' => ((inBase 16).map Char.toUpper, false)
  | _ => ([], false)

/-- Write the parts of a format once, and tell which arguments are left and whether an escape ended
all output. -/
def writeOnce : List Directive → List Bytes → Bytes × List Bytes × Bool
  | [], args => ([], args, false)
  | .text cs :: ds, args =>
    let (out, args, ended) := writeOnce ds args
    (cs ++ out, args, ended)
  | .value l kind :: ds, args =>
    let (text, ended) := l.write kind (args.headD [])
    if ended then (text, [], true)
    else
      let (out, args, ended) := writeOnce ds args.tail
      (text ++ out, args, ended)

/-- Write the parts of a format again and again until no argument is left. -/
def writeAll (ds : List Directive) : Nat → List Bytes → Bytes
  | 0, _ => []
  | fuel + 1, args =>
    let (out, rest, ended) := writeOnce ds args
    if ended ∨ rest.isEmpty ∨ rest.length = args.length then out else out ++ writeAll ds fuel rest

/-- Write the arguments as a format says. -/
def printf : Utility := fun args g =>
  let args := match args with
    | ['-', '-'] :: rest => rest
    | args => args
  match args with
  | [] => g.refuse 2 "printf: usage: printf format [arg ...]\n".toList
  | form :: args =>
    let ds := directives (form.length + 1) form
    let isNumeric := ds.any fun d => match d with
      | .value _ kind => "diuoxX".toList.contains kind
      | .text _ => false
    let bad := if isNumeric then args.filter fun a => !a.isEmpty && (numberOperand a).isNone else []
    { output := writeAll ds (args.length + 1) args
      status := if bad.isEmpty ∨ ds.any (fun d => d matches .value _ 's') then 0 else 1
      rest := g.input }

end Fettle.Shell
