import Fettle.Files.Tree
import Fettle.Shell.Script

/-!
# Utilities

A utility is given its arguments, the files and what is left of its input. It writes to its output
and to its error stream, leaves some of its input unread, and ends with a status, which is zero if
it succeeded.
-/

namespace Fettle.Shell

open Files (FileError Tree)

/-- What a utility is given besides its arguments. -/
structure Given where
  /-- The files. -/
  files : Tree
  /-- What is left of the input. -/
  input : Bytes

/-- What a utility does. -/
structure Effect where
  /-- The status that it ends with. -/
  status : Nat := 0
  /-- What it writes to its output. -/
  output : Bytes := []
  /-- What it writes to its error stream. -/
  errors : Bytes := []
  /-- What it leaves of its input. -/
  rest : Bytes := []
deriving Inhabited

/-- A utility, given its arguments. -/
abbrev Utility := List Bytes → Given → Effect

/-- A message of a utility: its name, and lines of what is wrong. -/
def complain (name : String) (parts : List Bytes) : Bytes :=
  name.toList ++ parts.flatMap (": ".toList ++ ·) ++ ['\n']

/-- What is in a file, or in the input if the name is a dash. -/
def Given.content (g : Given) (name : Bytes) : Except FileError Bytes :=
  if name = ['-'] then .ok g.input else (g.files.read (toText name)).map widen

/-- What is in files, or in the input if there are none. For a file that cannot be read it holds
why. -/
def Given.contents (g : Given) (names : List Bytes) : List (Bytes × Except FileError Bytes) :=
  if names.isEmpty then [(['-'], .ok g.input)] else names.map fun n => (n, g.content n)

/-- What is left of the input once some files are read. -/
def Given.restAfter (g : Given) (names : List Bytes) : Bytes :=
  if names.isEmpty ∨ names.contains ['-'] then [] else g.input

/-- End with a status and a message, without looking at the input. -/
def Given.refuse (g : Given) (status : Nat) (message : Bytes) : Effect :=
  { status, errors := message, rest := g.input }

/-- The lines of a text, each with the mark whether a line feed ends it. -/
def markedLines (text : Bytes) : List (Bytes × Bool) :=
  let ls := Text.cutAt '\n' text
  let last := ls.getLast?.getD []
  ls.dropLast.map (·, true) ++ (if last.isEmpty then [] else [(last, false)])

/-- Split leading options off the arguments: those that begin with a dash and have more after it,
up to a double dash. -/
def leadingOptions : List Bytes → List Bytes × List Bytes
  | [] => ([], [])
  | a :: rest =>
    if a = ['-', '-'] then ([], rest)
    else if a.head? = some '-' ∧ a ≠ ['-'] then
      let (options, operands) := leadingOptions rest
      (a :: options, operands)
    else ([], a :: rest)

/-- The number that decimal digits spell. -/
def naturalOf? (ds : Bytes) : Option Nat :=
  if ds.isEmpty ∨ !ds.all Char.isDigit then none
  else some (ds.foldl (fun n d => n * 10 + (d.toNat - '0'.toNat)) 0)

/-- The whole number that digits with an optional sign spell. -/
def integerOf? : Bytes → Option Int
  | '-' :: ds => (naturalOf? ds).map fun n => -(n : Int)
  | '+' :: ds => (naturalOf? ds).map fun n => (n : Int)
  | ds => (naturalOf? ds).map fun n => (n : Int)

/-! ## Whole files -/

/-- Write files one after another. -/
def cat : Utility := fun args g =>
  let names := (leadingOptions args).2
  let start : Effect := { rest := g.restAfter names }
  (g.contents names).foldl (fun e (name, content) =>
    match content with
    | .ok text => { e with output := e.output ++ text }
    | .error why =>
      { e with status := 1, errors := e.errors ++ complain "cat" [name, why.reason.toList] }) start

/-! ## The end of files -/

/-- Where the end of a text begins. -/
inductive End where
  /-- So many lines or bytes from the end. -/
  | last (n : Nat)
  /-- At a line or byte, counted from one. -/
  | start (n : Nat)
deriving DecidableEq, Inhabited, Repr

/-- The elements at the end of a list. -/
def End.of {α : Type} (e : End) (xs : List α) : List α :=
  match e with
  | last n => xs.drop (xs.length - n)
  | start n => xs.drop (n - 1)

/-- The place where an end begins, as an option spells it. -/
def End.ofOption? : Bytes → Option End
  | '+' :: ds => (naturalOf? ds).map .start
  | '-' :: ds => (naturalOf? ds).map .last
  | ds => (naturalOf? ds).map .last

/-- What `tail` is asked for: an end, whether it is counted in lines, and the files. -/
def tailArguments (e : End) (lines : Bool) : List Bytes → Option (End × Bool × List Bytes)
  | [] => some (e, lines, [])
  | ['-', 'n'] :: n :: rest => do tailArguments (← End.ofOption? n) true rest
  | ['-', 'c'] :: n :: rest => do tailArguments (← End.ofOption? n) false rest
  | ('-' :: 'n' :: n) :: rest => do tailArguments (← End.ofOption? n) true rest
  | ('-' :: 'c' :: n) :: rest => do tailArguments (← End.ofOption? n) false rest
  | ['-', '-'] :: rest => some (e, lines, rest)
  | ['-', 'q'] :: rest => tailArguments e lines rest
  | ('-' :: c :: n) :: rest => do
    match naturalOf? (c :: n) with
    | some k => tailArguments (.last k) true rest
    | none => none
  | names => some (e, lines, names)

/-- Write the ends of files. With several files each has a heading. -/
def tail : Utility := fun args g =>
  match tailArguments (.last 10) true args with
  | none => g.refuse 1 (complain "tail" ["invalid argument".toList])
  | some (place, lines, names) =>
    let part (text : Bytes) : Bytes :=
      if lines then
        (place.of (markedLines text)).flatMap fun (l, ended) => if ended then l ++ ['\n'] else l
      else place.of text
    let heading (isFirst : Bool) (name : Bytes) : Bytes :=
      if names.length ≤ 1 then []
      else (if isFirst then [] else ['\n']) ++ "==> ".toList ++ name ++ " <==\n".toList
    (g.contents names).foldl (fun e (name, content) =>
      match content with
      | .ok text => { e with output := e.output ++ heading e.output.isEmpty name ++ part text }
      | .error why => { e with
          status := 1
          errors := e.errors ++ "tail: cannot open '".toList ++ name ++ "' for reading: ".toList ++
            why.reason.toList ++ ['\n'] })
      { rest := g.restAfter names }

/-! ## Conditions -/

/-- The comparison of numbers that a word names. -/
def comparison? : String → Option (Int → Int → Bool)
  | "-eq" => some fun a b => a == b
  | "-ne" => some fun a b => a != b
  | "-lt" => some fun a b => decide (a < b)
  | "-le" => some fun a b => decide (a ≤ b)
  | "-gt" => some fun a b => decide (b < a)
  | "-ge" => some fun a b => decide (b ≤ a)
  | _ => none

/-- A number without the blanks around it. -/
def numberOperand (cs : Bytes) : Option Int :=
  let isGap (c : Char) := c == ' ' || c == '\t' || c == '\n'
  integerOf? (((cs.dropWhile isGap).reverse.dropWhile isGap).reverse)

/-- The condition on two texts that a word names, or the text that is no number. -/
def binaryCondition (op : String) (a b : Bytes) : Option (Except Bytes Bool) :=
  match op with
  | "=" | "==" => some (.ok (a == b))
  | "!=" => some (.ok (a != b))
  | _ => (comparison? op).map fun test =>
    match numberOperand a, numberOperand b with
    | some m, some n => .ok (test m n)
    | none, _ => .error a
    | _, none => .error b

/-- The condition on one text that a word names. -/
def unaryCondition (t : Tree) (op : String) (a : Bytes) : Option Bool :=
  let node := t.node (toText a)
  let isFile : Bool := match node with
    | .ok (.file ..) => true
    | _ => false
  let isDirectory : Bool := match node with
    | .ok (.directory _) => true
    | _ => false
  match op with
  | "-z" => some a.isEmpty
  | "-n" => some !a.isEmpty
  | "-e" | "-r" | "-w" => some (isFile || isDirectory)
  | "-f" => some isFile
  | "-d" => some isDirectory
  | "-s" => some (match node with
    | .ok (.file content _) => !content.isEmpty
    | .ok (.directory _) => true
    | .error _ => false)
  | "-x" => some (match node with
    | .ok (.file _ executable) => executable
    | .ok (.directory _) => true
    | .error _ => false)
  | _ => none

mutual

/-- Look at alternatives, and tell what words are left. -/
def anyCondition (t : Tree) : Nat → List Bytes → Except Bytes (Bool × List Bytes)
  | 0, _ => .error []
  | fuel + 1, ws => do
    let (a, ws) ← allCondition t fuel ws
    match ws with
    | w :: rest =>
      if w = "-o".toList then
        let (b, rest) ← anyCondition t fuel rest
        .ok (a || b, rest)
      else .ok (a, ws)
    | [] => .ok (a, [])

/-- Look at conditions that must all hold. -/
def allCondition (t : Tree) : Nat → List Bytes → Except Bytes (Bool × List Bytes)
  | 0, _ => .error []
  | fuel + 1, ws => do
    let (a, ws) ← oneCondition t fuel ws
    match ws with
    | w :: rest =>
      if w = "-a".toList then
        let (b, rest) ← allCondition t fuel rest
        .ok (a && b, rest)
      else .ok (a, ws)
    | [] => .ok (a, [])

/-- Look at a single condition. -/
def oneCondition (t : Tree) : Nat → List Bytes → Except Bytes (Bool × List Bytes)
  | 0, _ => .error []
  | fuel + 1, ws =>
    match ws with
    | [] => .ok (false, [])
    | [a] => .ok (!a.isEmpty, [])
    | a :: b :: rest =>
      let pair : Option (Except Bytes (Bool × List Bytes)) := match rest with
        | c :: rest => (binaryCondition (String.ofList b) a c).map (·.map (·, rest))
        | [] => none
      match pair with
      | some answer => answer
      | none =>
        if a = ['!'] then (oneCondition t fuel (b :: rest)).map fun (x, r) => (!x, r)
        else if a = ['('] then do
          let (x, r) ← anyCondition t fuel (b :: rest)
          match r with
          | [')'] :: r => .ok (x, r)
          | _ => .error []
        else
          match unaryCondition t (String.ofList a) b with
          | some x => .ok (x, rest)
          | none => .ok (!a.isEmpty, b :: rest)

end

/-- Look at a condition: the status is zero if it holds, one if it does not, and two if it cannot
be understood. -/
def test : Utility := fun args g =>
  match anyCondition g.files (4 * args.length + 4) args with
  | .ok (holds, []) => { status := if holds then 0 else 1, rest := g.input }
  | .ok (_, w :: _) => g.refuse 2 (complain "test" [w, "unexpected operator".toList])
  | .error w => g.refuse 2 (complain "test" ["Illegal number".toList, w])

/-- Look at a condition between brackets. -/
def bracketTest : Utility := fun args g =>
  if args.getLast? = some [']'] then test args.dropLast g
  else g.refuse 2 (complain "[" ["missing ]".toList])

end Fettle.Shell
