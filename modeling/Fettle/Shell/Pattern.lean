import Fettle.Shell.Script

/-!
# Patterns of the shell

In a pattern a star stands for any text, a question mark for any character, and a bracket for one
of some characters; everything else stands for itself.
-/

namespace Fettle.Shell

/-- One sign of a pattern. -/
inductive Glob where
  /-- Any text. -/
  | star
  /-- Any character. -/
  | any
  /-- A character that stands for itself. -/
  | char (c : Char)
  /-- One of some characters, given by ranges, or one of all others. -/
  | oneOf (negated : Bool) (ranges : List (Char × Char))
deriving DecidableEq, Inhabited, Repr

/-- Characters of a pattern, each with the mark whether it is quoted. -/
abbrev Marked := List (Char × Bool)

/-- The characters of a class that is named in a bracket. -/
def classRanges : String → List (Char × Char)
  | "alpha" => [('a', 'z'), ('A', 'Z')]
  | "digit" => [('0', '9')]
  | "alnum" => [('a', 'z'), ('A', 'Z'), ('0', '9')]
  | "upper" => [('A', 'Z')]
  | "lower" => [('a', 'z')]
  | "space" => [('\t', '\x0d'), (' ', ' ')]
  | "blank" => [('\t', '\t'), (' ', ' ')]
  | "punct" => [('!', '/'), (':', '@'), ('[', '\x60'), ('\x7b', '~')]
  | "xdigit" => [('0', '9'), ('a', 'f'), ('A', 'F')]
  | "print" => [(' ', '~')]
  | "graph" => [('!', '~')]
  | "cntrl" => [('\x00', '\x1f'), ('\x7f', '\x7f')]
  | _ => []

/-- The ranges inside a bracket, up to its closing sign, which may come first as a member. The
result holds what comes after the bracket. -/
def bracketRanges (first : Bool) :
    Nat → List Char → Option (List (Char × Char) × List Char)
  | 0, _ => none
  | fuel + 1, cs =>
    match cs with
    | [] => none
    | ']' :: rest =>
      if first then (bracketRanges false fuel rest).map fun (rs, r) => ((']', ']') :: rs, r)
      else some ([], rest)
    | '[' :: ':' :: rest =>
      let name := rest.takeWhile (· ≠ ':')
      match rest.drop name.length with
      | ':' :: ']' :: rest =>
        let ranges := classRanges (String.ofList name)
        (bracketRanges false fuel rest).map fun (rs, r) => (ranges ++ rs, r)
      | _ => (bracketRanges false fuel (':' :: rest)).map fun (rs, r) => (('[', '[') :: rs, r)
    | a :: '-' :: b :: rest =>
      if b = ']' then
        (bracketRanges false fuel ('-' :: b :: rest)).map fun (rs, r) => ((a, a) :: rs, r)
      else (bracketRanges false fuel rest).map fun (rs, r) => ((a, b) :: rs, r)
    | a :: rest => (bracketRanges false fuel rest).map fun (rs, r) => ((a, a) :: rs, r)

/-- Whether a character lies in one of some ranges. -/
def inRanges (rs : List (Char × Char)) (c : Char) : Bool := rs.any fun (a, b) => a ≤ c && c ≤ b

/-- The bracket that a pattern begins with after its opening sign. -/
def bracket (negations : List Char) (cs : List Char) :
    Option (Bool × List (Char × Char) × List Char) :=
  match cs with
  | [] => none
  | c :: rest =>
    if negations.contains c then
      (bracketRanges true (rest.length + 1) rest).map fun (rs, r) => (true, rs, r)
    else (bracketRanges true (cs.length + 1) cs).map fun (rs, r) => (false, rs, r)

/-- The signs of a pattern. A quoted character stands for itself. -/
def globs : Nat → Marked → List Glob
  | 0, _ => []
  | _, [] => []
  | fuel + 1, (c, true) :: cs => .char c :: globs fuel cs
  | fuel + 1, (c, false) :: cs =>
    if c = '*' then .star :: globs fuel cs
    else if c = '?' then .any :: globs fuel cs
    else if c = '[' then
      match bracket ['!', '^'] (cs.map (·.1)) with
      | some (negated, ranges, rest) =>
        .oneOf negated ranges :: globs fuel (cs.drop (cs.length - rest.length))
      | none => .char c :: globs fuel cs
    else .char c :: globs fuel cs

/-- Whether signs match all of a text. -/
def globMatches : List Glob → Bytes → Bool
  | [], cs => cs.isEmpty
  | .star :: gs, [] => globMatches gs []
  | .star :: gs, c :: cs => globMatches gs (c :: cs) || globMatches (.star :: gs) cs
  | .any :: gs, _ :: cs => globMatches gs cs
  | .char d :: gs, c :: cs => c == d && globMatches gs cs
  | .oneOf negated ranges :: gs, c :: cs => (inRanges ranges c != negated) && globMatches gs cs
  | _ :: _, [] => false
termination_by gs cs => (gs.length, cs.length)

/-- Whether a pattern matches all of a text. -/
def Marked.matches (p : Marked) (text : Bytes) : Bool := globMatches (globs (p.length + 1) p) text

/-- A text without the front that a pattern matches, the longest such or the shortest. -/
def dropFront (p : Marked) (longest : Bool) (text : Bytes) : Bytes :=
  let sizes := List.range (text.length + 1)
  let sizes := if longest then sizes.reverse else sizes
  match sizes.find? fun n => p.matches (text.take n) with
  | some n => text.drop n
  | none => text

/-- A text without the back that a pattern matches, the longest such or the shortest. -/
def dropBack (p : Marked) (longest : Bool) (text : Bytes) : Bytes :=
  let sizes := List.range (text.length + 1)
  let sizes := if longest then sizes else sizes.reverse
  match sizes.find? fun n => p.matches (text.drop n) with
  | some n => text.take n
  | none => text

end Fettle.Shell
