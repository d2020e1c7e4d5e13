import Fettle.Diff.Lines
import Fettle.Diff.Slide

/-!
# Unified diffs

Changes are shown in hunks with three lines of context. Changes that are at most six lines apart
share a hunk. The header of a hunk gives the first line and the number of lines on either side; a
line that ends without a line ending is followed by a hint.
-/

namespace Fettle.Diff

/-- The number of kept lines that are shown around a change. -/
def context : Nat := 3

/-- The last lines of a kept run that comes first in a script. -/
def trimFirst : List Op → List Op
  | op :: ops =>
    if op.kind = .equal then
      let n := op.oldLength - context
      .keep (op.oldStart + n) (op.newStart + n) (op.oldLength - n) :: ops
    else op :: ops
  | [] => []

/-- The first lines of a kept run that comes last in a script. -/
def trimLast : List Op → List Op
  | [] => []
  | [op] =>
    if op.kind = .equal then [.keep op.oldStart op.newStart (min op.oldLength context)] else [op]
  | op :: next :: ops => op :: trimLast (next :: ops)

/-- Cut a script into hunks at its long kept runs; `pending` is the hunk that is being
collected. -/
def hunksFrom : List Op → List Op → List (List Op)
  | pending, [] =>
    match pending with
    | [] => []
    | [op] => if op.kind = .equal then [] else [[op]]
    | pending => [pending]
  | pending, op :: ops =>
    if op.kind = .equal ∧ 2 * context < op.oldLength then
      let n := op.oldLength - context
      (pending ++ [.keep op.oldStart op.newStart context]) ::
        hunksFrom [.keep (op.oldStart + n) (op.newStart + n) (op.oldLength - n)] ops
    else hunksFrom (pending ++ [op]) ops

/-- The hunks of a script. -/
def hunks (ops : List Op) : List (List Op) := hunksFrom [] (trimLast (trimFirst ops))

/-- One side of the header of a hunk: the first line, and the number of lines unless it is one.
An empty side names the line before it. -/
def sideText (start stop : Nat) : String :=
  let n := stop - start
  if n = 1 then s!"{start + 1}"
  else if n = 0 then s!"{start},0"
  else s!"{start + 1},{n}"

/-- The header of a hunk. -/
def headerText (hunk : List Op) : String :=
  match hunk.head?, hunk.getLast? with
  | some first, some last =>
    s!"@@ -{sideText first.oldStart last.oldStop} +{sideText first.newStart last.newStop} @@\n"
  | _, _ => ""

/-- A line of a hunk, with its sign in front and a hint if it has no line ending. -/
def lineText (sign : String) (line : String) : String :=
  sign ++ line ++ (if isTerminated line then "" else "\n\\ No newline at end of file\n")

/-- The lines of one operation. -/
def opText (old new : Array String) (op : Op) : String :=
  let oldLines := (old.toList.drop op.oldStart).take op.oldLength
  let newLines := (new.toList.drop op.newStart).take op.newLength
  String.join <| match op.kind with
    | .equal => oldLines.map (lineText " ")
    | _ => oldLines.map (lineText "-") ++ newLines.map (lineText "+")

/-- A hunk with its header. -/
def hunkText (old new : Array String) (hunk : List Op) : String :=
  headerText hunk ++ String.join (hunk.map (opText old new))

/-- The unified diff from one text to another, with a name in both headers; nothing if the texts
are equal. -/
def unified (name source formatted : String) : String :=
  if source = formatted then ""
  else
    let old := (lines source).toArray
    let new := (lines formatted).toArray
    match hunks (operations old new) with
    | [] => ""
    | hs =>
      s!"--- {name} (original)\n+++ {name} (formatted)\n" ++
        String.join (hs.map (hunkText old new))

end Fettle.Diff
