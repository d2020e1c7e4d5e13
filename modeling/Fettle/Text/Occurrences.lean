/-!
# Occurrences of a text in another

Occurrences are found from left to right and do not overlap. The empty text is found before every
character and at the end.
-/

namespace Fettle.Text

/-- The columns where a pattern occurs in a text, the first column being `column`. The number
says how many characters belong to the occurrence found last. -/
def occurrencesFrom (pattern : List Char) : Nat → Nat → List Char → List Nat
  | column, _, [] => if pattern.isEmpty then [column] else []
  | column, skip + 1, _ :: cs => occurrencesFrom pattern (column + 1) skip cs
  | column, 0, c :: cs =>
    if pattern.isPrefixOf (c :: cs) then
      column :: occurrencesFrom pattern (column + 1) (pattern.length - 1) cs
    else occurrencesFrom pattern (column + 1) 0 cs

/-- The columns where a pattern occurs in a text. -/
def occurrences (pattern text : List Char) : List Nat := occurrencesFrom pattern 0 0 text

/-- Put a replacement in place of every occurrence of a pattern; what is written so far comes
first, its last character in front. -/
def replaceFrom (pattern replacement : List Char) :
    Nat → List Char → List Char → List Char
  | _, written, [] =>
    (if pattern.isEmpty then replacement.reverse ++ written else written).reverse
  | skip + 1, written, _ :: cs => replaceFrom pattern replacement skip written cs
  | 0, written, c :: cs =>
    if pattern.isEmpty then
      replaceFrom pattern replacement 0 (c :: (replacement.reverse ++ written)) cs
    else if pattern.isPrefixOf (c :: cs) then
      replaceFrom pattern replacement (pattern.length - 1) (replacement.reverse ++ written) cs
    else replaceFrom pattern replacement 0 (c :: written) cs

/-- Put a replacement in place of every occurrence of a pattern. -/
def replaceAll (pattern replacement text : String) : String :=
  String.ofList (replaceFrom pattern.toList replacement.toList 0 [] text.toList)

/-- Whether a pattern occurs in a text. -/
def occursIn (pattern text : String) : Bool :=
  !(occurrences pattern.toList text.toList).isEmpty

end Fettle.Text
