/-!
# The lines that are compared

A text is cut after every line feed, after every carriage return, and after a carriage return with
a line feed behind it. The endings stay with their lines, so that the lines joined are the text.
-/

namespace Fettle.Diff

/-- Cut a text into lines; the characters of the line that is being read come last first. -/
def linesFrom : List Char → List Char → List (List Char)
  | [], [] => []
  | line, [] => [line.reverse]
  | line, '\r' :: '\n' :: cs => ('\n' :: '\r' :: line).reverse :: linesFrom [] cs
  | line, c :: cs =>
    if c = '\n' ∨ c = '\r' then (c :: line).reverse :: linesFrom [] cs
    else linesFrom (c :: line) cs

/-- The lines of a text, each with its ending. -/
def lines (text : String) : List String := (linesFrom [] text.toList).map String.ofList

/-- A line ends in a line feed or in a carriage return. -/
def isTerminated (line : String) : Bool :=
  match line.toList.getLast? with
  | some c => c == '\n' || c == '\r'
  | none => false

end Fettle.Diff
