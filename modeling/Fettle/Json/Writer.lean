import Fettle.Decimal.Shortest
import Fettle.Json.Value
import Fettle.Text.Quoted

/-!
# Writing JSON

A value is written on one line, or with one element to a line and two spaces to a level. A string
is written between double quotes; only quotes, backslashes and control characters are escaped.
-/

namespace Fettle.Json

/-- The four hexadecimal digits of a number below 65536. -/
def fourHexDigits (n : Nat) : List Char :=
  [(n / 4096) % 16, (n / 256) % 16, (n / 16) % 16, n % 16].map Nat.digitChar

/-- How a character stands inside a written string. -/
def escapeChar (c : Char) : List Char :=
  if c = '"' then ['\\', '"']
  else if c = '\\' then ['\\', '\\']
  else if c = '\x08' then ['\\', 'b']
  else if c = '\x0c' then ['\\', 'f']
  else if c = '\n' then ['\\', 'n']
  else if c = '\r' then ['\\', 'r']
  else if c = '\t' then ['\\', 't']
  else if c.toNat < 32 then '\\' :: 'u' :: fourHexDigits c.toNat
  else [c]

/-- A string between its quotes. -/
def writeString (s : String) : List Char := '"' :: s.toList.flatMap escapeChar ++ ['"']

/-- The digits of a natural number. -/
def writeNat (n : Nat) : List Char := Nat.toDigits 10 n

/-- The text of a number. -/
def Number.write : Number → List Char
  | natural n => writeNat n
  | negative n => '-' :: writeNat n
  | float x => (Decimal.compactText x).toList

namespace Value

mutual

/-- A value on one line without blanks. -/
def write : Value → List Char
  | null => ['n', 'u', 'l', 'l']
  | bool true => ['t', 'r', 'u', 'e']
  | bool false => ['f', 'a', 'l', 's', 'e']
  | number n => n.write
  | string s => writeString s
  | array vs => '[' :: writeElements vs ++ [']']
  | object ms => '\x7b' :: writeMembers ms ++ ['\x7d']

/-- The elements of a list with commas between them. -/
def writeElements : List Value → List Char
  | [] => []
  | [v] => v.write
  | v :: w :: vs => v.write ++ ',' :: writeElements (w :: vs)

/-- The members of an object with commas between them. -/
def writeMembers : List (String × Value) → List Char
  | [] => []
  | [(name, v)] => writeString name ++ ':' :: v.write
  | (name, v) :: m :: ms => writeString name ++ ':' :: v.write ++ ',' :: writeMembers (m :: ms)

end

/-- The beginning of a line at a level: two spaces for each level. -/
def indentation (level : Nat) : List Char := '\n' :: List.replicate (2 * level) ' '

mutual

/-- A value over several lines, at a level of nesting. -/
def layOut (level : Nat) : Value → List Char
  | array [] => ['[', ']']
  | array (v :: vs) => '[' :: layOutElements (level + 1) (v :: vs) ++ indentation level ++ [']']
  | object [] => ['\x7b', '\x7d']
  | object (m :: ms) =>
    '\x7b' :: layOutMembers (level + 1) (m :: ms) ++ indentation level ++ ['\x7d']
  | null => write null
  | bool b => write (bool b)
  | number n => write (number n)
  | string s => write (string s)

/-- The elements of a list, each on a line of its own. -/
def layOutElements (level : Nat) : List Value → List Char
  | [] => []
  | [v] => indentation level ++ v.layOut level
  | v :: w :: vs => indentation level ++ v.layOut level ++ ',' :: layOutElements level (w :: vs)

/-- The members of an object, each on a line of its own. -/
def layOutMembers (level : Nat) : List (String × Value) → List Char
  | [] => []
  | [(name, v)] => indentation level ++ writeString name ++ ':' :: ' ' :: v.layOut level
  | (name, v) :: m :: ms =>
    indentation level ++ writeString name ++ ':' :: ' ' :: v.layOut level ++
      ',' :: layOutMembers level (m :: ms)

end

/-- The text of a value on one line. -/
def compact (v : Value) : String := String.ofList v.write

/-- The text of a value over several lines. -/
def pretty (v : Value) : String := String.ofList (v.layOut 0)

end Value

end Fettle.Json
