/-!
# Blank characters

The characters with the Unicode property White_Space, and texts without them at their ends.
-/

namespace Fettle.Text

/-- The characters with the Unicode property White_Space. -/
def isBlank (c : Char) : Bool :=
  let n := c.toNat
  (9 ≤ n && n ≤ 13) || n == 0x20 || n == 0x85 || n == 0xA0 || n == 0x1680 ||
    (0x2000 ≤ n && n ≤ 0x200A) || n == 0x2028 || n == 0x2029 || n == 0x202F || n == 0x205F ||
    n == 0x3000

/-- A text of blank characters only. -/
def allBlank (s : String) : Bool := s.toList.all isBlank

/-- A text without the blank characters at its beginning and at its end. -/
def trim (s : String) : String :=
  String.ofList (((s.toList.dropWhile isBlank).reverse.dropWhile isBlank).reverse)

end Fettle.Text
