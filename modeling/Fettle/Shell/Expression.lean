import Fettle.Shell.Pattern

/-!
# Regular expressions

The expressions that lines are searched with, in the basic spelling, where groups and bounds are
written with backslashes, and in the extended one, where they are not. Of several ways to match,
each repetition takes as much as it can.
-/

namespace Fettle.Shell

/-- A regular expression. -/
inductive Regex where
  /-- The empty text. -/
  | empty
  /-- Any character. -/
  | any
  /-- A character that stands for itself. -/
  | char (c : Char)
  /-- One of some characters, given by ranges, or one of all others. -/
  | oneOf (negated : Bool) (ranges : List (Char × Char))
  /-- The start of the line. -/
  | start
  /-- The end of the line. -/
  | stop
  /-- One expression after another. -/
  | seq (first second : Regex)
  /-- One expression or another. -/
  | alt (first second : Regex)
  /-- An expression again and again, at least and at most a number of times. -/
  | many (r : Regex) (least : Nat) (most : Option Nat)
  /-- A group with its number. -/
  | group (n : Nat) (r : Regex)
  /-- What a group matched. -/
  | again (n : Nat)
deriving DecidableEq, Inhabited, Repr

/-! ## Reading -/

namespace Regex

/-- An expression that is being read. -/
structure Reading where
  /-- What is not read yet. -/
  rest : List Char
  /-- The number of groups so far. -/
  groups : Nat := 0
  /-- The number of open groups. -/
  depth : Nat := 0
deriving Inhabited

/-- Take a number. -/
def number (cs : List Char) : Option Nat × List Char :=
  let ds := cs.takeWhile Char.isDigit
  (if ds.isEmpty then none else some (ds.foldl (fun n d => n * 10 + (d.toNat - 48)) 0),
    cs.drop ds.length)

/-- The bounds that stand after their opening sign, and what follows the closing sign. -/
def bounds (extended : Bool) (cs : List Char) : Option (Nat × Option Nat × List Char) := do
  let (least, cs) := number cs
  let (most, cs) ← match cs with
    | ',' :: cs =>
      let (most, cs) := number cs
      some (most, cs)
    | cs => do
      let n ← least
      some (some n, cs)
  let close := if extended then ['\x7d'] else ['\\', '\x7d']
  if close.isPrefixOf cs then some (least.getD 0, most, cs.drop close.length) else none

/-- The repetition that comes next, and what follows it. -/
def repetition (extended : Bool) : List Char → Option (Option (Nat × Option Nat × List Char))
  | '*' :: cs => some (some (0, none, cs))
  | '+' :: cs => some (if extended then some (1, none, cs) else none)
  | '?' :: cs => some (if extended then some (0, some 1, cs) else none)
  | '\x7b' :: cs => if extended then (bounds true cs).map some else some none
  | '\\' :: '+' :: cs => some (if extended then none else some (1, none, cs))
  | '\\' :: '?' :: cs => some (if extended then none else some (0, some 1, cs))
  | '\\' :: '\x7b' :: cs => if extended then some none else (bounds false cs).map some
  | _ => some none

/-- Put the repetitions that come next around an expression. -/
def repeated (extended : Bool) : Nat → Regex → List Char → Option (Regex × List Char)
  | 0, r, cs => some (r, cs)
  | fuel + 1, r, cs => do
    match ← repetition extended cs with
    | none => some (r, cs)
    | some (least, most, rest) => repeated extended fuel (.many r least most) rest

/-- Whether a bar between alternatives comes next. -/
def barLength (extended : Bool) : List Char → Nat
  | '|' :: _ => if extended then 1 else 0
  | '\\' :: '|' :: _ => if extended then 0 else 2
  | _ => 0

/-- The length of the sign that closes a group, if it comes next. -/
def closeLength (extended : Bool) : List Char → Nat
  | ')' :: _ => if extended then 1 else 0
  | '\\' :: ')' :: _ => if extended then 0 else 2
  | _ => 0

/-- The length of the sign that opens a group, if it comes next. -/
def openLength (extended : Bool) : List Char → Nat
  | '(' :: _ => if extended then 1 else 0
  | '\\' :: '(' :: _ => if extended then 0 else 2
  | _ => 0

/-- The character that a letter stands for after a backslash. -/
def escaped : Char → Regex
  | 'n' => .char '\n'
  | 't' => .char '\t'
  | 's' => .oneOf false (classRanges "space")
  | 'S' => .oneOf true (classRanges "space")
  | 'w' => .oneOf false (('_', '_') :: classRanges "alnum")
  | 'W' => .oneOf true (('_', '_') :: classRanges "alnum")
  | c => if c.isDigit ∧ c ≠ '0' then .again (c.toNat - '0'.toNat) else .char c

mutual

/-- Take alternatives. -/
def alternatives (extended : Bool) : Nat → Reading → Option (Regex × Reading)
  | 0, _ => none
  | fuel + 1, s => do
    let (r, s) ← sequence extended true fuel s
    let n := barLength extended s.rest
    if n = 0 then some (r, s)
    else
      let (other, s) ← alternatives extended fuel { s with rest := s.rest.drop n }
      some (.alt r other, s)

/-- Take expressions one after another. `atFront` tells that none has come. -/
def sequence (extended atFront : Bool) : Nat → Reading → Option (Regex × Reading)
  | 0, _ => none
  | fuel + 1, s =>
    if s.rest.isEmpty ∨ barLength extended s.rest ≠ 0 ∨
        (closeLength extended s.rest ≠ 0 ∧ s.depth ≠ 0) then some (.empty, s)
    else do
      let (r, s) ← single extended atFront fuel s
      let (r, rest) ← if r = .start then some (r, s.rest) else repeated extended fuel r s.rest
      let isFront := atFront && r == .start
      let (more, s) ← sequence extended isFront fuel { s with rest }
      some (if more = .empty then r else .seq r more, s)

/-- Take one expression. -/
def single (extended atFront : Bool) : Nat → Reading → Option (Regex × Reading)
  | 0, _ => none
  | fuel + 1, s =>
    let n := openLength extended s.rest
    if n ≠ 0 then do
      let number := s.groups + 1
      let (r, t) ← alternatives extended fuel ⟨s.rest.drop n, number, s.depth + 1⟩
      let m := closeLength extended t.rest
      if m = 0 then none
      else some (.group number r, { t with rest := t.rest.drop m, depth := s.depth })
    else
      match s.rest with
      | [] => none
      | '.' :: rest => some (.any, { s with rest })
      | '[' :: rest => do
        let (negated, ranges, rest) ← bracket ['^'] rest
        some (.oneOf negated ranges, { s with rest })
      | '^' :: rest => some (if extended || atFront then .start else .char '^', { s with rest })
      | '$' :: rest =>
        let isLast := rest.isEmpty || barLength extended rest != 0 || closeLength extended rest != 0
        some (if extended || isLast then .stop else .char '$', { s with rest })
      | ['\\'] => none
      | '\\' :: c :: rest => some (escaped c, { s with rest })
      | c :: rest => some (.char c, { s with rest })

end

/-- The expression that a text spells. -/
def ofText? (extended : Bool) (cs : Bytes) : Option Regex := do
  let (r, s) ← alternatives extended (6 * cs.length + 12) ⟨cs, 0, 0⟩
  if s.rest.isEmpty then some r else none

/-- The expression that matches a text alone. -/
def ofLiteral (cs : Bytes) : Regex := cs.foldr (fun c r => .seq (.char c) r) .empty

/-! ## Matching -/

/-- A place in a line, with what the groups have matched. -/
structure Place where
  /-- The number of characters before it. -/
  index : Nat
  /-- The characters after it. -/
  rest : List Char
  /-- What the groups matched, the latest first. -/
  groups : List (Nat × List Char) := []
deriving Inhabited

/-- The place after one more character. -/
def Place.next (p : Place) : Place := ⟨p.index + 1, p.rest.tail, p.groups⟩

/-- Whether two characters are the same, perhaps but for their case. -/
def sameChar (ignoreCase : Bool) (c d : Char) : Bool :=
  c == d || (ignoreCase && c.toLower == d.toLower)

/-- Whether a character lies in one of some ranges, perhaps but for its case. -/
def inRangesBut (ignoreCase : Bool) (rs : List (Char × Char)) (c : Char) : Bool :=
  inRanges rs c || (ignoreCase && (inRanges rs c.toLower || inRanges rs c.toUpper))

/-- Match an expression at a place, and go on with a continuation from where it ends. -/
def matchFrom (ignoreCase : Bool) :
    Nat → Regex → Place → (Place → Option Place) → Option Place
  | 0, _, _, _ => none
  | fuel + 1, r, p, k =>
    match r with
    | .empty => k p
    | .any => if p.rest.isEmpty then none else k p.next
    | .char d => if p.rest.head?.any (sameChar ignoreCase d) then k p.next else none
    | .oneOf negated ranges =>
      if p.rest.head?.any fun c => inRangesBut ignoreCase ranges c != negated then k p.next
      else none
    | .start => if p.index = 0 then k p else none
    | .stop => if p.rest.isEmpty then k p else none
    | .seq a b => matchFrom ignoreCase fuel a p fun q => matchFrom ignoreCase fuel b q k
    | .alt a b =>
      match matchFrom ignoreCase fuel a p k with
      | some q => some q
      | none => matchFrom ignoreCase fuel b p k
    | .many a least most =>
      if most = some 0 then k p
      else
        let once := matchFrom ignoreCase fuel a p fun q =>
          if q.index = p.index ∧ least = 0 then none
          else matchFrom ignoreCase fuel (.many a (least - 1) (most.map (· - 1))) q k
        match once with
        | some q => some q
        | none => if least = 0 then k p else none
    | .group n a => matchFrom ignoreCase fuel a p fun q =>
      k { q with groups := (n, p.rest.take (q.index - p.index)) :: q.groups }
    | .again n =>
      let text := (p.groups.lookup n).getD []
      if text.isPrefixOf p.rest then k ⟨p.index + text.length, p.rest.drop text.length, p.groups⟩
      else none

/-- The number of parts of an expression. -/
def size : Regex → Nat
  | .seq a b | .alt a b => a.size + b.size + 1
  | .many a least _ => a.size * (least + 1) + 1
  | .group _ a => a.size + 1
  | _ => 1

/-- The end of a match that begins at a place. -/
def matchAt (r : Regex) (ignoreCase : Bool) (p : Place) : Option Place :=
  matchFrom ignoreCase ((r.size + 2) * (p.rest.length + 2)) r { p with groups := [] } some

/-- The first match from a place on: where it begins and where it ends. -/
def search (r : Regex) (ignoreCase : Bool) : Nat → Place → Option (Place × Place)
  | 0, _ => none
  | fuel + 1, p =>
    match r.matchAt ignoreCase p with
    | some q => some (p, q)
    | none => if p.rest.isEmpty then none else search r ignoreCase fuel p.next

/-- The first match in a line from a place on. -/
def find (r : Regex) (ignoreCase : Bool) (p : Place) : Option (Place × Place) :=
  r.search ignoreCase (p.rest.length + 1) p

/-- Whether an expression matches in a line. -/
def occursIn (r : Regex) (ignoreCase : Bool) (line : Bytes) : Bool :=
  (r.find ignoreCase ⟨0, line, []⟩).isSome

end Regex

end Fettle.Shell
