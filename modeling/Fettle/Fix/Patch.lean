import Fettle.Span.Edit
import Fettle.Text.Rows

/-!
# Applying edits to a text

The text is held as a buffer of lines, and edits are applied to it one after another. A position
past the end of its line, or past the last line, counts as that end. An edit on one row changes
its line in place, even if its content holds line feeds; any other edit replaces all lines from
its first to its last by the lines of the joined text. An edit whose span runs backwards changes
nothing.
-/

namespace Fettle.Fix

/-- The lines of a text that is being patched. A line may hold line feeds, which an edit on one
row has put there. -/
abbrev Buffer := List (List Char)

namespace Buffer

/-- The line at a row; past the last line there is none, and the empty line stands for it. -/
def line (b : Buffer) (row : Nat) : List Char := b.getD row []

/-- The place in the buffer that a position stands for: a column past the end of its line is that
end, and a row past the last line is the end of the last line. -/
def locate (b : Buffer) (p : Position) : Position :=
  if p.row < b.length then ⟨p.row, min p.column (b.line p.row).length⟩
  else ⟨b.length - 1, (b.line (b.length - 1)).length⟩

/-- Replace the characters of one line between two columns. -/
def replaceInLine (b : Buffer) (row start stop : Nat) (content : List Char) : Buffer :=
  let line := b.line row
  b.set row (line.take start ++ content ++ line.drop (max start stop))

/-- Replace everything between two places by a content, and cut the result into lines again. -/
def replaceLines (b : Buffer) (start stop : Position) (content : List Char) : Buffer :=
  let joined := (b.line start.row).take start.column ++ content ++
    (b.line stop.row).drop stop.column
  b.take start.row ++ Text.rows joined ++ b.drop (stop.row + 1)

/-- Apply one edit. -/
def apply (b : Buffer) (e : Edit) : Buffer :=
  if e.WellFormed then
    let start := b.locate e.start
    let stop := b.locate e.stop
    if e.OnOneRow then b.replaceInLine start.row start.column stop.column e.content.toList
    else b.replaceLines start stop e.content.toList
  else b

end Buffer

/-- Apply edits to a text, one after another. -/
def patch (text : String) (edits : List Edit) : String :=
  String.ofList (Text.ofRows (edits.foldl Buffer.apply (Text.rows text.toList)))

end Fettle.Fix
