import Fettle.Text.Escaped

/-!
# Quotations in messages

A text is quoted in a message between double quotes. A quote and a backslash are preceded by a
backslash, the usual control characters have their letters, and characters that show nothing of
their own are spelled by their number in hexadecimal digits.
-/

namespace Fettle.Text

/-- The lower-case hexadecimal digits of a number. -/
def hexDigits (n : Nat) : List Char := Nat.toDigits 16 n

/-- How a quotation spells one character. -/
def quoteChar (c : Char) : List Char :=
  if c = '"' then ['\\', '"']
  else if c = '\\' then ['\\', '\\']
  else if c = '\n' then ['\\', 'n']
  else if c = '\r' then ['\\', 'r']
  else if c = '\t' then ['\\', 't']
  else if c = '\x00' then ['\\', '0']
  else if isEscaped c then ['\\', 'u', '\x7b'] ++ hexDigits c.toNat ++ ['\x7d']
  else [c]

/-- A text between double quotes, as messages show it. -/
def quote (s : String) : String := String.ofList ('"' :: s.toList.flatMap quoteChar ++ ['"'])

end Fettle.Text
