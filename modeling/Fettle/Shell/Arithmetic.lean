import Fettle.Shell.Reader

/-!
# Arithmetic in scripts

Expressions of whole numbers of 64 bits, with variables that may be set on the way. A variable
that is not set counts as zero.
-/

namespace Fettle.Shell

/-- The variables of a script. -/
abbrev Variables := List (Bytes × Bytes)

/-- Set a variable. -/
def Variables.put (vs : Variables) (name value : Bytes) : Variables :=
  (name, value) :: vs.filter (·.1 ≠ name)

/-- A number in decimal digits. -/
def decimal (n : Int) : Bytes :=
  if n < 0 then '-' :: Nat.toDigits 10 n.natAbs else Nat.toDigits 10 n.natAbs

/-- A number brought into the range of 64 bits with a sign. -/
def wrap (n : Int) : Int := Int.bmod n (Nat.pow 2 64)

/-- A truth value as a number. -/
def truthNumber (b : Bool) : Int := if b then 1 else 0

/-- The bits of a number as a natural number. -/
def bits (n : Int) : Nat := (n % Nat.pow 2 64).toNat

/-- An operation on two numbers, which may have no result. -/
abbrev BinaryOperation := Int → Int → Option Int

/-- The operations between two numbers: their signs, how strongly they bind, and what they do. Of
two signs that begin alike the longer one comes first. -/
def binaryOperations : List (String × Nat × BinaryOperation) := [
  ("||", 1, fun a b => some (truthNumber (a != 0 || b != 0))),
  ("&&", 2, fun a b => some (truthNumber (a != 0 && b != 0))),
  ("==", 6, fun a b => some (truthNumber (a == b))),
  ("!=", 6, fun a b => some (truthNumber (a != b))),
  ("<<", 8, fun a b => some (wrap (a * Nat.pow 2 (bits b % 64)))),
  (">>", 8, fun a b => some (a / Nat.pow 2 (bits b % 64))),
  ("<=", 7, fun a b => some (truthNumber (decide (a ≤ b)))),
  (">=", 7, fun a b => some (truthNumber (decide (b ≤ a)))),
  ("<", 7, fun a b => some (truthNumber (decide (a < b)))),
  (">", 7, fun a b => some (truthNumber (decide (b < a)))),
  ("|", 3, fun a b => some (wrap (bits a ||| bits b))),
  ("^", 4, fun a b => some (wrap (bits a ^^^ bits b))),
  ("&", 5, fun a b => some (wrap (bits a &&& bits b))),
  ("+", 9, fun a b => some (wrap (a + b))),
  ("-", 9, fun a b => some (wrap (a - b))),
  ("*", 10, fun a b => some (wrap (a * b))),
  ("/", 10, fun a b => if b = 0 then none else some (wrap (a.tdiv b))),
  ("%", 10, fun a b => if b = 0 then none else some (wrap (a.tmod b)))]

/-- The signs that set a variable: to a number, or to the result of an operation. -/
def assignmentSigns : List (String × Option String) :=
  [("=", none), ("+=", some "+"), ("-=", some "-"), ("*=", some "*"), ("/=", some "/"),
    ("%=", some "%"), ("<<=", some "<<"), (">>=", some ">>"), ("&=", some "&"), ("|=", some "|"),
    ("^=", some "^")]

/-- The digits of a number that stand at the front, and the number. -/
def numberAt (cs : List Char) : Option (Int × List Char) :=
  let value (base : Nat) (ds : List Char) : Int :=
    ds.foldl (fun n d =>
      n * base + (if d.isDigit then d.toNat - '0'.toNat else d.toLower.toNat - 'a'.toNat + 10)) 0
  match cs with
  | '0' :: x :: rest =>
    if x = 'x' ∨ x = 'X' then
      let ds := rest.takeWhile fun c => c.isDigit || inHex c
      if ds.isEmpty then none else some (wrap (value 16 ds), rest.drop ds.length)
    else
      let ds := (x :: rest).takeWhile Char.isDigit
      if ds.all fun d => d ≤ '7' then some (wrap (value 8 ds), (x :: rest).drop ds.length) else none
  | cs =>
    let ds := cs.takeWhile Char.isDigit
    if ds.isEmpty then none else some (wrap (value 10 ds), cs.drop ds.length)
where
  /-- A letter that is a hexadecimal digit. -/
  inHex (c : Char) : Bool := ('a' ≤ c && c ≤ 'f') || ('A' ≤ c && c ≤ 'F')

/-- An expression that is being evaluated. -/
structure Sum where
  /-- What is not read yet. -/
  rest : List Char
  /-- The variables. -/
  bindings : Variables
deriving Inhabited

namespace Sum

/-- Pass over blanks. -/
def trimmed (s : Sum) : Sum :=
  { s with rest := s.rest.dropWhile fun c => isGap c || c == '\n' }

/-- The value of a variable. -/
def variableValue (s : Sum) (name : Bytes) : Option Int :=
  match s.bindings.lookup name with
  | none => some 0
  | some [] => some 0
  | some ('-' :: ds) => (numberAt ds).bind fun (n, rest) => if rest.isEmpty then some (-n) else none
  | some ds => (numberAt ds).bind fun (n, rest) => if rest.isEmpty then some n else none

/-- The assignment that comes next, if one does. -/
def assignmentAhead (s : Sum) : Option (Option String × List Char) :=
  match s.trimmed.rest with
  | '=' :: '=' :: _ => none
  | cs => (assignmentSigns.find? fun (sign, _) => sign.toList.isPrefixOf cs).map fun (sign, op) =>
    (op, cs.drop sign.length)

mutual

/-- Evaluate a choice, which binds most weakly. -/
def choice : Nat → Sum → Option (Int × Sum)
  | 0, _ => none
  | fuel + 1, s => do
    let (a, s) ← binary 1 fuel s
    match s.trimmed.rest with
    | '?' :: rest => do
      let (b, s) ← choice fuel { s with rest }
      match s.trimmed.rest with
      | ':' :: rest =>
        let (c, s) ← choice fuel { s with rest }
        some (if a ≠ 0 then b else c, s)
      | _ => none
    | _ => some (a, s)

/-- Evaluate operations that bind at least as strongly as a level says. -/
def binary (level : Nat) : Nat → Sum → Option (Int × Sum)
  | 0, _ => none
  | fuel + 1, s => do
    let (a, s) ← unary fuel s
    operations level a fuel s

/-- Go on with operations on a number. -/
def operations (level : Nat) (a : Int) : Nat → Sum → Option (Int × Sum)
  | 0, _ => none
  | fuel + 1, s =>
    let cs := s.trimmed.rest
    match binaryOperations.find? fun (sign, _, _) => sign.toList.isPrefixOf cs with
    | none => some (a, s)
    | some (sign, strength, run) =>
      if strength < level then some (a, s)
      else do
        let (b, s) ← binary (strength + 1) fuel { s with rest := cs.drop sign.length }
        operations level (← run a b) fuel s

/-- Evaluate a number, a variable or brackets, with signs before it. -/
def unary : Nat → Sum → Option (Int × Sum)
  | 0, _ => none
  | fuel + 1, s =>
    let s := s.trimmed
    match s.rest with
    | '-' :: rest => do
      let (a, s) ← unary fuel { s with rest }
      some (wrap (-a), s)
    | '+' :: rest => unary fuel { s with rest }
    | '!' :: rest => do
      let (a, s) ← unary fuel { s with rest }
      some (truthNumber (a == 0), s)
    | '~' :: rest => do
      let (a, s) ← unary fuel { s with rest }
      some (wrap (-a - 1), s)
    | '(' :: rest => do
      let (a, s) ← choice fuel { s with rest }
      match s.trimmed.rest with
      | ')' :: rest => some (a, { s with rest })
      | _ => none
    | c :: cs =>
      if isNameStart c then
        let name := (c :: cs).takeWhile isNameChar
        let s := { s with rest := (c :: cs).drop name.length }
        match s.assignmentAhead with
        | none => do some (← s.variableValue name, s)
        | some (op, rest) => do
          let before ← s.variableValue name
          let (b, s) ← choice fuel { s with rest }
          let value ← match op with
            | none => some b
            | some sign =>
              match binaryOperations.lookup sign with
              | some (_, run) => run before b
              | none => none
          some (value, { s with bindings := s.bindings.put name (decimal value) })
      else do
        let (n, rest) ← numberAt (c :: cs)
        some (n, { s with rest })
    | [] => none

end

end Sum

/-- Evaluate an expression: its value, and the variables afterwards. -/
def evaluate (bindings : Variables) (cs : Bytes) : Option (Int × Variables) :=
  if cs.all fun c => isGap c || c == '\n' then some (0, bindings)
  else do
    let (n, s) ← Sum.choice (8 * cs.length + 16) ⟨cs, bindings⟩
    if s.trimmed.rest.isEmpty then some (n, s.bindings) else none

end Fettle.Shell
