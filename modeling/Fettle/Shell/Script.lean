import Fettle.Text.Octets

/-!
# Shell scripts

A script is a list of commands, and a command is made of words. A word is made of parts, some of
which stand for other text: the value of a parameter, the output of commands, the value of an
arithmetic expression. The shell works on bytes; each byte is written as the character with the
same number.
-/

namespace Fettle.Shell

/-- A text of the shell: each character is a byte. -/
abbrev Bytes := List Char

/-- The bytes of a text. -/
def widen (bs : Text.Octets) : Bytes := bs.map fun b => Char.ofNat b.toNat

/-- The bytes that a text of the shell stands for. -/
def narrow (cs : Bytes) : Text.Octets := cs.map fun c => c.toNat.toUInt8

/-- The text of the shell for a string. -/
def ofString (s : String) : Bytes := widen (Text.encode s)

/-- The string that a text of the shell spells. -/
def toText (cs : Bytes) : String := Text.decodeLossy (narrow cs)

/-- What is made of the value of a parameter. Those that look at whether the parameter is set may
take an empty value for none. -/
inductive Modifier where
  /-- The value itself. -/
  | value
  /-- The number of its bytes. -/
  | length
  /-- Another text if it is not set. -/
  | orElse (orEmpty : Bool)
  /-- Another text, which is stored, if it is not set. -/
  | orAssign (orEmpty : Bool)
  /-- A failure if it is not set. -/
  | orFail (orEmpty : Bool)
  /-- Another text if it is set. -/
  | ifSet (orEmpty : Bool)
  /-- The value without what a pattern matches at its front. -/
  | withoutFront (longest : Bool)
  /-- The value without what a pattern matches at its back. -/
  | withoutBack (longest : Bool)
deriving DecidableEq, Inhabited, Repr

/-- What is done with a file in place of a stream. -/
inductive Channel where
  /-- It is read. -/
  | input
  /-- It is written anew. -/
  | output
  /-- It is written at its end. -/
  | append
  /-- The stream goes where another stream goes. -/
  | duplicate
deriving DecidableEq, Inhabited, Repr

mutual

/-- A part of a word. What is quoted is neither split nor taken for a pattern. -/
inductive Part where
  /-- Text that stands for itself. -/
  | text (cs : Bytes) (isQuoted : Bool)
  /-- The value of a parameter. -/
  | parameter (name : Bytes) (modifier : Modifier) (argument : List Part) (isQuoted : Bool)
  /-- The output of commands. -/
  | output (commands : List Command) (isQuoted : Bool)
  /-- The value of an arithmetic expression. -/
  | arithmetic (expression : List Part) (isQuoted : Bool)

/-- A command. -/
inductive Command where
  /-- Variables that are set, and a program or utility with its arguments. -/
  | simple (line : Nat) (assignments : List (Bytes × List Part)) (words : List (List Part))
  /-- A command with streams that go elsewhere: the number of each, how, and where. -/
  | redirected (line : Nat) (command : Command)
      (redirections : List (Nat × Channel × List Part))
  /-- Commands in a row. -/
  | group (commands : List Command)
  /-- Commands in a shell of their own. -/
  | subshell (commands : List Command)
  /-- A choice by the success of commands. -/
  | choice (condition consequence alternative : List Command)
  /-- Commands that are repeated as long as others succeed, or until they do. -/
  | loop (untilSuccess : Bool) (condition body : List Command)
  /-- Commands that are repeated for words, or for the arguments of the script. -/
  | each (name : Bytes) (words : Option (List (List Part))) (body : List Command)
  /-- A choice by patterns. -/
  | select (subject : List Part) (cases : List (List (List Part) × List Command))
  /-- Commands of which each reads what the one before writes. -/
  | pipeline (commands : List Command)
  /-- A command whose success is turned round. -/
  | negation (command : Command)
  /-- A command, and another one if it succeeds. -/
  | both (first second : Command)
  /-- A command, and another one if it fails. -/
  | either (first second : Command)

end

instance : Inhabited Part := ⟨.text [] false⟩

instance : Inhabited Command := ⟨.group []⟩

/-- A word. -/
abbrev Word := List Part

/-- A script: the commands of its lines, up to the first line that cannot be read. -/
structure Script where
  /-- The commands of each complete line. -/
  lines : List (List Command)
  /-- The number of the line that cannot be read, if there is one. -/
  broken : Option Nat
deriving Inhabited

end Fettle.Shell
