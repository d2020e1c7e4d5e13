import Fettle.Json.Reader
import Mathlib.Data.List.Basic
import Mathlib.Data.Nat.Notation

/-!
# The spellings of JSON

What a JSON text spells, said without a reader. A value has many spellings: blanks may stand around
every token, a character of a string may be escaped, and the members of an object stand in any
order. `Separated` lays out the elements of a list or the members of an object, `SpellsString`
relates a string to its spellings, `ValueText` says which texts spell any value at all, and
`SpellsObject` relates the spellings of an object to a table of its members.
-/

namespace Fettle.Json

/-! ## Blanks, items and commas -/

/-- Characters that may stand between tokens. -/
def Spaces (cs : List Char) : Prop := ∀ c ∈ cs, c = ' ' ∨ c = '\n' ∨ c = '\t' ∨ c = '\r'

/-- A text of items with commas between them, each with blanks around it. -/
inductive Separated {α : Type} (Item : α → List Char → Prop) : List α → List Char → Prop
  /-- No item. -/
  | none {s : List Char} (hs : Spaces s) : Separated Item [] s
  /-- The last item. -/
  | one {a : α} {s cs s' : List Char} (hs : Spaces s) (ha : Item a cs) (hs' : Spaces s') :
      Separated Item [a] (s ++ cs ++ s')
  /-- An item, and more after a comma. -/
  | more {a b : α} {as : List α} {s cs s' rest : List Char} (hs : Spaces s) (ha : Item a cs)
      (hs' : Spaces s') (hrest : Separated Item (b :: as) rest) :
      Separated Item (a :: b :: as) (s ++ cs ++ s' ++ ',' :: rest)

/-- A list whose elements are spelled by `Item`. -/
def SpellsList {α : Type} (Item : α → List Char → Prop) (as : List α) (cs : List Char) : Prop :=
  ∃ inner, Separated Item as inner ∧ cs = '[' :: inner ++ [']']

/-- A value that may be null. -/
def SpellsOption {α : Type} (Item : α → List Char → Prop) : Option α → List Char → Prop
  | .none, cs => cs = ['n', 'u', 'l', 'l']
  | some a, cs => Item a cs

/-! ## Strings -/

/-- A hexadecimal digit, in either case. -/
def HexDigit (d : ℕ) (c : Char) : Prop :=
  d < 16 ∧ (c = Nat.digitChar d ∨ c = (Nat.digitChar d).toUpper)

/-- A number in four hexadecimal digits. -/
inductive FourHexDigits : ℕ → List Char → Prop
  /-- The digits, the most significant one first. -/
  | mk {d₁ d₂ d₃ d₄ : ℕ} {c₁ c₂ c₃ c₄ : Char} (h₁ : HexDigit d₁ c₁) (h₂ : HexDigit d₂ c₂)
      (h₃ : HexDigit d₃ c₃) (h₄ : HexDigit d₄ c₄) :
      FourHexDigits (((d₁ * 16 + d₂) * 16 + d₃) * 16 + d₄) [c₁, c₂, c₃, c₄]

/-- The letters that may follow a backslash, each with the character that it stands for. -/
def escapeLetters : List (Char × Char) :=
  [('"', '"'), ('\\', '\\'), ('/', '/'), ('b', '\x08'), ('f', '\x0c'), ('n', '\n'), ('r', '\r'),
    ('t', '\t')]

/-- A character that may stand in a string as it is. -/
def Plain (c : Char) : Prop := c ≠ '"' ∧ c ≠ '\\' ∧ 32 ≤ c.toNat

/-- The spellings of a character in a string. -/
inductive SpellsChar : Char → List Char → Prop
  /-- The character itself. -/
  | plain {c : Char} (h : Plain c) : SpellsChar c [c]
  /-- A letter that stands for it. -/
  | letter {l c : Char} (h : (l, c) ∈ escapeLetters) : SpellsChar c ['\\', l]
  /-- Its number. -/
  | number {c : Char} {cs : List Char} (h : FourHexDigits c.toNat cs) :
      SpellsChar c ('\\' :: 'u' :: cs)
  /-- Its number as a pair of surrogates. -/
  | pair {c : Char} {high low : ℕ} {cs cs' : List Char} (h : FourHexDigits high cs)
      (h' : FourHexDigits low cs') (hhigh : 0xD800 ≤ high ∧ high ≤ 0xDBFF)
      (hlow : 0xDC00 ≤ low ∧ low ≤ 0xDFFF)
      (hc : c.toNat = 0x10000 + (high - 0xD800) * 0x400 + (low - 0xDC00)) :
      SpellsChar c ('\\' :: 'u' :: cs ++ '\\' :: 'u' :: cs')

/-- The spellings of the characters of a string, one after another. -/
inductive SpellsChars : List Char → List Char → Prop
  /-- No character. -/
  | nil : SpellsChars [] []
  /-- A character and the characters after it. -/
  | cons {c : Char} {s cs rest : List Char} (hc : SpellsChar c cs) (hs : SpellsChars s rest) :
      SpellsChars (c :: s) (cs ++ rest)

/-- The spellings of a string, quotes included. -/
def SpellsString (s : String) (cs : List Char) : Prop :=
  ∃ body, SpellsChars s.toList body ∧ cs = '"' :: body ++ ['"']

/-! ## Values of any kind -/

/-- What may stand between the quotes of a string that is not read: the halves of a pair of
surrogates need not come together. -/
inductive StringBody : List Char → Prop
  /-- Nothing. -/
  | nil : StringBody []
  /-- A character as it is. -/
  | plain {c : Char} {rest : List Char} (h : Plain c) (hrest : StringBody rest) :
      StringBody (c :: rest)
  /-- A letter after a backslash. -/
  | letter {l c : Char} {rest : List Char} (h : (l, c) ∈ escapeLetters)
      (hrest : StringBody rest) : StringBody ('\\' :: l :: rest)
  /-- A number after a backslash. -/
  | number {n : ℕ} {cs rest : List Char} (h : FourHexDigits n cs) (hrest : StringBody rest) :
      StringBody ('\\' :: 'u' :: cs ++ rest)

/-- The text of any string. -/
def StringText (cs : List Char) : Prop := ∃ body, StringBody body ∧ cs = '"' :: body ++ ['"']

/-- One or more decimal digits. -/
def Digits (cs : List Char) : Prop := cs ≠ [] ∧ ∀ c ∈ cs, c.isDigit = true

/-- A whole number: zero, or digits that do not begin with zero. -/
def WholeText (cs : List Char) : Prop := Digits cs ∧ (cs.head? = some '0' → cs = ['0'])

/-- The digits after a decimal point, if there are any. -/
def FractionText (cs : List Char) : Prop := cs = [] ∨ ∃ ds, Digits ds ∧ cs = '.' :: ds

/-- An exponent, if there is one. -/
def ExponentText (cs : List Char) : Prop :=
  cs = [] ∨ ∃ e sign ds, (e = 'e' ∨ e = 'E') ∧ (sign = [] ∨ sign = ['+'] ∨ sign = ['-']) ∧
    Digits ds ∧ cs = e :: (sign ++ ds)

/-- The text of any number. -/
def NumberText (cs : List Char) : Prop :=
  ∃ sign whole fraction exponent, (sign = [] ∨ sign = ['-']) ∧ WholeText whole ∧
    FractionText fraction ∧ ExponentText exponent ∧ cs = sign ++ (whole ++ (fraction ++ exponent))

/-- The text of any value without elements or members. -/
def ScalarText (cs : List Char) : Prop :=
  cs = ['n', 'u', 'l', 'l'] ∨ cs = ['t', 'r', 'u', 'e'] ∨ cs = ['f', 'a', 'l', 's', 'e'] ∨
    NumberText cs ∨ StringText cs

/-- A name, a colon and a value, with blanks between them; the name is spelled by `Name` and the
value by `Item`. -/
def MemberText (Name Item : List Char → Prop) (cs : List Char) : Prop :=
  ∃ name s s' value, Name name ∧ Spaces s ∧ Spaces s' ∧ Item value ∧
    cs = name ++ (s ++ ':' :: (s' ++ value))

/-- The text of any value that is nested at most to a depth. -/
def ValueText : ℕ → List Char → Prop
  | 0, cs => ScalarText cs
  | depth + 1, cs => ScalarText cs ∨
    (∃ items inner, Separated (fun (_ : Unit) => ValueText depth) items inner ∧
      cs = '[' :: inner ++ [']']) ∨
    ∃ items inner,
      Separated (fun (_ : Unit) => MemberText StringText (ValueText depth)) items inner ∧
      cs = '\x7b' :: inner ++ ['\x7d']

/-! ## Numbers and objects that are read -/

/-- A natural number of at most 64 bits is spelled by its decimal digits. -/
def SpellsNat (n : ℕ) (cs : List Char) : Prop := n ≤ maxNat64 ∧ cs = Nat.toDigits 10 n

/-- What an object may say about one of the members that are asked for. -/
structure Member where
  /-- The name of the member. -/
  name : String
  /-- The texts that spell its value. -/
  Spells : List Char → Prop
  /-- Whether the member may be left out. -/
  MayLack : Prop

/-- The spellings of an object with a table of members: each member of the table stands in the
object once or is left out if it may be, in any order, and there may be further members with any
names and values. -/
def SpellsObject (table : List Member) (cs : List Char) : Prop :=
  ∃ (given : List (String × List Char)) (inner : List Char),
    Separated (fun m => MemberText (SpellsString m.1) (· = m.2)) given inner ∧
    cs = '\x7b' :: inner ++ ['\x7d'] ∧
    ((given.map Prod.fst).filter (· ∈ table.map Member.name)).Nodup ∧
    (∀ g ∈ given, (∃ m ∈ table, m.name = g.1 ∧ m.Spells g.2) ∨
      g.1 ∉ table.map Member.name ∧ ∃ depth, ValueText depth g.2) ∧
    ∀ m ∈ table, m.name ∈ given.map Prod.fst ∨ m.MayLack

end Fettle.Json
