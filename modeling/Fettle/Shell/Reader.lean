import Fettle.Shell.Script

/-!
# Reading shell scripts

A script is read line by line. A line holds commands with semicolons between them; inside a command
such as a loop line breaks do not end the line. Words end at blanks and at the signs that commands
are put together with, unless these are quoted.
-/

namespace Fettle.Shell

/-- A script that is being read. -/
structure Source where
  /-- What is not read yet. -/
  rest : Bytes
  /-- The number of the line, counted from one. -/
  line : Nat := 1
deriving Inhabited

/-- A reader of scripts, which may find that something is not put together rightly. -/
abbrev Reader := StateT Source Option

/-- A character that begins names. -/
def isNameStart (c : Char) : Bool := c.isAlpha || c == '_'

/-- A character of names. -/
def isNameChar (c : Char) : Bool := c.isAlphanum || c == '_'

/-- A character that separates words on a line. -/
def isGap (c : Char) : Bool := c == ' ' || c == '\t'

/-- A character that ends a word unless it is quoted. -/
def endsWord (c : Char) : Bool := isGap c || "\n;&|()<>".toList.contains c

/-- A character of an unquoted word that stands for itself. -/
def isOrdinary (c : Char) : Bool := !endsWord c && !"\\'\"$\x60".toList.contains c

namespace Reader

/-- The characters ahead. -/
def ahead : Reader Bytes := return (← get).rest

/-- The next character. -/
def peek : Reader (Option Char) := return (← get).rest.head?

/-- Pass over some characters. -/
def skip (n : Nat) : Reader Unit := modify fun s =>
  ⟨s.rest.drop n, s.line + (s.rest.take n).count '\n'⟩

/-- Take the characters that satisfy a test. -/
def takeWhile (test : Char → Bool) : Reader Bytes := do
  let run := (← ahead).takeWhile test
  skip run.length
  return run

/-- Pass over a sign, if it comes next. -/
def accept (sign : String) : Reader Bool := do
  if sign.toList.isPrefixOf (← ahead) then
    skip sign.length
    return true
  else return false

/-- Pass over a sign, which must come next. -/
def expect (sign : String) : Reader Unit := do
  if !(← accept sign) then failure

/-- Whether a sign comes next. -/
def isNext (sign : String) : Reader Bool := return sign.toList.isPrefixOf (← ahead)

/-- Pass over blanks, joined lines and a comment. -/
def skipGap : Nat → Reader Unit
  | 0 => return
  | fuel + 1 => do
    match ← ahead with
    | '\\' :: '\n' :: _ =>
      skip 2
      skipGap fuel
    | '#' :: _ => do
      let _ ← takeWhile (· ≠ '\n')
    | c :: _ =>
      if isGap c then
        skip 1
        skipGap fuel
    | [] => return

/-- Pass over blanks, comments and line breaks. -/
def skipLines : Nat → Reader Unit
  | 0 => return
  | fuel + 1 => do
    skipGap fuel
    if ← accept "\n" then skipLines fuel

/-- Whether a reserved word comes next. -/
def isReserved (word : String) : Reader Bool := do
  let cs ← ahead
  return word.toList.isPrefixOf cs && (cs[word.length]?).all endsWord

/-- Pass over a sign that separates commands on a line, if one comes next. -/
def separator : Reader Bool := do
  if ← accept ";" then return true else accept "&"

/-- Whether one of some reserved words comes next. -/
def isOneOf (words : List String) : Reader Bool := words.anyM isReserved

/-- Pass over a reserved word, which must come next. -/
def reserved (word : String) : Reader Unit := do
  if ← isReserved word then skip word.length else failure

/-- Take a name. -/
def name : Reader Bytes := do
  match ← peek with
  | some c => if isNameStart c then takeWhile isNameChar else failure
  | none => failure

/-- Take text up to a quote. -/
def untilQuote : Reader Bytes := do
  let cs ← takeWhile (· ≠ '\'')
  expect "'"
  return cs

/-- Take the name of a parameter. -/
def parameterName : Reader Bytes := do
  match ← peek with
  | some c =>
    if isNameStart c then takeWhile isNameChar
    else if c.isDigit || "@*#?$!-".toList.contains c then
      skip 1
      return [c]
    else failure
  | none => failure

/-- Take the sign of a modifier. -/
def modifier : Reader Modifier := do
  let orEmpty ← accept ":"
  match ← peek with
  | some '-' => sign (.orElse orEmpty)
  | some '=' => sign (.orAssign orEmpty)
  | some '?' => sign (.orFail orEmpty)
  | some '+' => sign (.ifSet orEmpty)
  | some '#' => if orEmpty then failure else
      skip 1
      return .withoutFront (← accept "#")
  | some '%' => if orEmpty then failure else
      skip 1
      return .withoutBack (← accept "%")
  | _ => if orEmpty then failure else return .value
where
  /-- Pass over the sign of a modifier. -/
  sign (m : Modifier) : Reader Modifier := do
    skip 1
    return m

/-- The number in front of a redirection, which is one digit, and the sign of it. -/
def redirectionSign : Reader (Option (Nat × Channel)) := do
  let cs ← ahead
  let (number, cs) := match cs with
    | d :: '<' :: cs => if d.isDigit then (some d, '<' :: cs) else (none, d :: '<' :: cs)
    | d :: '>' :: cs => if d.isDigit then (some d, '>' :: cs) else (none, d :: '>' :: cs)
    | cs => (none, cs)
  let stream (standard : Nat) : Nat := (number.map fun d => d.toNat - '0'.toNat).getD standard
  let found := match cs with
    | '<' :: '<' :: _ => none
    | '<' :: '&' :: _ => some (2, stream 0, Channel.duplicate)
    | '<' :: _ => some (1, stream 0, .input)
    | '>' :: '>' :: _ => some (2, stream 1, .append)
    | '>' :: '&' :: _ => some (2, stream 1, .duplicate)
    | '>' :: '|' :: _ => some (2, stream 1, .output)
    | '>' :: _ => some (1, stream 1, .output)
    | _ => none
  match found with
  | none => return none
  | some (length, stream, channel) =>
    skip (length + (if number.isSome then 1 else 0))
    return some (stream, channel)

mutual

/-- Take the parts of a word. -/
def parts : Nat → Reader Word
  | 0 => failure
  | fuel + 1 => do
    match ← ahead with
    | [] => return []
    | '\\' :: '\n' :: _ =>
      skip 2
      parts fuel
    | ['\\'] =>
      skip 1
      return [.text ['\\'] true]
    | '\\' :: c :: _ =>
      skip 2
      return .text [c] true :: (← parts fuel)
    | '\'' :: _ =>
      skip 1
      let cs ← untilQuote
      return .text cs true :: (← parts fuel)
    | '"' :: _ =>
      skip 1
      let quoted ← quotedParts '"' fuel
      expect "\""
      return .text [] true :: quoted ++ (← parts fuel)
    | '$' :: _ =>
      let part ← dollar false fuel
      return part :: (← parts fuel)
    | c :: _ =>
      if isOrdinary c then
        let run ← takeWhile isOrdinary
        return .text run false :: (← parts fuel)
      else if endsWord c then return []
      else failure

/-- Take quoted parts up to a closing sign. A backslash quotes only the signs that have a meaning
inside quotes. -/
def quotedParts (close : Char) : Nat → Reader Word
  | 0 => failure
  | fuel + 1 => do
    match ← ahead with
    | [] => failure
    | '\\' :: '\n' :: _ =>
      skip 2
      quotedParts close fuel
    | '\\' :: c :: _ =>
      skip 2
      let kept := if c = close ∨ "\\\"$\x60".toList.contains c then [c] else ['\\', c]
      return .text kept true :: (← quotedParts close fuel)
    | '$' :: _ =>
      let part ← dollar true fuel
      return part :: (← quotedParts close fuel)
    | '\x60' :: _ => failure
    | c :: _ =>
      if c = close then return []
      else
        let run ← takeWhile fun d => d ≠ close && !"\\$\x60".toList.contains d
        return .text run true :: (← quotedParts close fuel)

/-- Take the argument of a modifier, up to the closing brace. -/
def argument (isQuoted : Bool) : Nat → Reader Word
  | 0 => failure
  | fuel + 1 => do
    if isQuoted then quotedParts '\x7d' fuel
    else
      match ← ahead with
      | '\x7d' :: _ => return []
      | '\'' :: _ =>
        skip 1
        let cs ← untilQuote
        return .text cs true :: (← argument isQuoted fuel)
      | '"' :: _ =>
        skip 1
        let quoted ← quotedParts '"' fuel
        expect "\""
        return .text [] true :: quoted ++ (← argument isQuoted fuel)
      | '\\' :: c :: _ =>
        skip 2
        return .text [c] true :: (← argument isQuoted fuel)
      | '$' :: _ =>
        let part ← dollar false fuel
        return part :: (← argument isQuoted fuel)
      | c :: _ =>
        skip 1
        return .text [c] false :: (← argument isQuoted fuel)
      | [] => failure

/-- Take the parts of an arithmetic expression, inside a number of brackets. -/
def expression (depth : Nat) : Nat → Reader Word
  | 0 => failure
  | fuel + 1 => do
    match ← ahead with
    | '(' :: _ =>
      skip 1
      return .text ['('] true :: (← expression (depth + 1) fuel)
    | ')' :: _ =>
      if depth = 0 then return []
      else
        skip 1
        return .text [')'] true :: (← expression (depth - 1) fuel)
    | '$' :: _ =>
      let part ← dollar true fuel
      return part :: (← expression depth fuel)
    | _ :: _ =>
      let run ← takeWhile fun c => !"()$".toList.contains c
      return .text run true :: (← expression depth fuel)
    | [] => failure

/-- Take the part that a dollar sign begins. -/
def dollar (isQuoted : Bool) : Nat → Reader Part
  | 0 => failure
  | fuel + 1 => do
    skip 1
    match ← ahead with
    | '(' :: '(' :: _ =>
      skip 2
      let body ← expression 0 fuel
      expect "))"
      return .arithmetic body isQuoted
    | '(' :: _ =>
      skip 1
      let commands ← block [] fuel
      expect ")"
      return .output commands isQuoted
    | '\x7b' :: '#' :: c :: _ =>
      if c ≠ '\x7d' ∧ (isNameChar c ∨ "@*?$!-".toList.contains c) then
        skip 2
        let n ← if c.isDigit then takeWhile Char.isDigit else parameterName
        expect "\x7d"
        return .parameter n .length [] isQuoted
      else
        skip 1
        braced isQuoted fuel
    | '\x7b' :: _ =>
      skip 1
      braced isQuoted fuel
    | c :: _ =>
      if isNameStart c ∨ c.isDigit ∨ "@*#?$!-".toList.contains c then
        let n ← parameterName
        return .parameter n .value [] isQuoted
      else return .text ['$'] isQuoted
    | [] => return .text ['$'] isQuoted

/-- Take what stands between braces after a dollar sign. -/
def braced (isQuoted : Bool) : Nat → Reader Part
  | 0 => failure
  | fuel + 1 => do
    let digits ← takeWhile Char.isDigit
    let n ← if digits.isEmpty then parameterName else pure digits
    let m ← modifier
    let w ← if m = .value then pure [] else argument isQuoted fuel
    expect "\x7d"
    return .parameter n m w isQuoted

/-- Take a word, which must be there. -/
def word : Nat → Reader Word
  | 0 => failure
  | fuel + 1 => do
    let w ← parts fuel
    if w.isEmpty then failure else return w

/-- Take redirections. -/
def redirections : Nat → Reader (List (Nat × Channel × Word))
  | 0 => failure
  | fuel + 1 => do
    skipGap fuel
    match ← redirectionSign with
    | none => return []
    | some (stream, channel) =>
      skipGap fuel
      let target ← word fuel
      return (stream, channel, target) :: (← redirections fuel)

/-- Take what is left of a simple command: assignments as long as they may come, words and
redirections. -/
def simple (mayAssign : Bool) :
    Nat → Reader (List (Bytes × Word) × List Word × List (Nat × Channel × Word))
  | 0 => failure
  | fuel + 1 => do
    skipGap fuel
    let rs ← redirections fuel
    skipGap fuel
    match ← peek with
    | none => return ([], [], rs)
    | some c =>
      if endsWord c then return ([], [], rs)
      else
        let cs ← ahead
        let n := if isNameStart c then cs.takeWhile isNameChar else []
        if mayAssign ∧ !n.isEmpty ∧ cs[n.length]? = some '=' then
          skip (n.length + 1)
          let value ← parts fuel
          let (assignments, words, more) ← simple true fuel
          return ((n, value) :: assignments, words, rs ++ more)
        else
          let w ← word fuel
          let (assignments, words, more) ← simple false fuel
          return (assignments, w :: words, rs ++ more)

/-- Take a command that is no pipeline. -/
def command : Nat → Reader Command
  | 0 => failure
  | fuel + 1 => do
    skipGap fuel
    let line := (← get).line
    if ← isOneOf ["then", "else", "elif", "fi", "do", "done", "esac", "\x7d", "in"] then failure
    else if (← isNext "(") ∨ (← isOneOf ["if", "while", "until", "for", "case", "\x7b"]) then
      let c ← compound fuel
      let rs ← redirections fuel
      return if rs.isEmpty then c else .redirected line c rs
    else
      let (assignments, words, rs) ← simple true fuel
      if assignments.isEmpty ∧ words.isEmpty ∧ rs.isEmpty then failure
      else
        let c := Command.simple line assignments words
        return if rs.isEmpty then c else .redirected line c rs

/-- Take a command that holds others. -/
def compound : Nat → Reader Command
  | 0 => failure
  | fuel + 1 => do
    if ← accept "(" then
      let body ← block [] fuel
      expect ")"
      return .subshell body
    else if ← isReserved "\x7b" then
      skip 1
      let body ← block ["\x7d"] fuel
      reserved "\x7d"
      return .group body
    else if ← isReserved "if" then
      skip 2
      let c ← branches fuel
      reserved "fi"
      return c
    else if ← isReserved "while" then
      skip 5
      repetition false fuel
    else if ← isReserved "until" then
      skip 5
      repetition true fuel
    else if ← isReserved "for" then
      skip 3
      forWords fuel
    else
      reserved "case"
      skipGap fuel
      let subject ← word fuel
      skipLines fuel
      reserved "in"
      let cases ← caseItems fuel
      reserved "esac"
      return .select subject cases

/-- Take a condition with what is done in either case, up to the closing word. -/
def branches : Nat → Reader Command
  | 0 => failure
  | fuel + 1 => do
    let condition ← block ["then"] fuel
    reserved "then"
    let consequence ← block ["elif", "else", "fi"] fuel
    if ← isReserved "elif" then
      skip 4
      return .choice condition consequence [← branches fuel]
    else if ← isReserved "else" then
      skip 4
      return .choice condition consequence (← block ["fi"] fuel)
    else return .choice condition consequence []

/-- Take the rest of a loop with a condition. -/
def repetition (untilSuccess : Bool) : Nat → Reader Command
  | 0 => failure
  | fuel + 1 => do
    let condition ← block ["do"] fuel
    return .loop untilSuccess condition (← body fuel)

/-- Take the body of a loop. -/
def body : Nat → Reader (List Command)
  | 0 => failure
  | fuel + 1 => do
    reserved "do"
    let commands ← block ["done"] fuel
    reserved "done"
    return commands

/-- Take the rest of a loop over words. -/
def forWords : Nat → Reader Command
  | 0 => failure
  | fuel + 1 => do
    skipGap fuel
    let n ← name
    skipLines fuel
    if ← isReserved "in" then
      skip 2
      let ws ← wordsOfLine fuel
      let _ ← accept ";"
      skipLines fuel
      return .each n (some ws) (← body fuel)
    else
      let _ ← accept ";"
      skipLines fuel
      return .each n none (← body fuel)

/-- Take the words up to the end of a command. -/
def wordsOfLine : Nat → Reader (List Word)
  | 0 => failure
  | fuel + 1 => do
    skipGap fuel
    match ← peek with
    | none => return []
    | some c =>
      if endsWord c then return []
      else
        let w ← word fuel
        return w :: (← wordsOfLine fuel)

/-- Take the cases of a choice by patterns. -/
def caseItems : Nat → Reader (List (List Word × List Command))
  | 0 => failure
  | fuel + 1 => do
    skipLines fuel
    if ← isReserved "esac" then return []
    else
      let _ ← accept "("
      let ps ← patterns fuel
      expect ")"
      let commands ← block ["esac"] fuel
      if ← accept ";;" then return (ps, commands) :: (← caseItems fuel)
      else
        skipLines fuel
        return [(ps, commands)]

/-- Take the patterns of a case. -/
def patterns : Nat → Reader (List Word)
  | 0 => failure
  | fuel + 1 => do
    skipGap fuel
    let w ← word fuel
    skipGap fuel
    if ← accept "|" then return w :: (← patterns fuel) else return [w]

/-- Take commands in pipes. -/
def pipes : Nat → Reader (List Command)
  | 0 => failure
  | fuel + 1 => do
    let c ← command fuel
    skipGap fuel
    if (← isNext "|") ∧ !(← isNext "||") then
      skip 1
      skipLines fuel
      return c :: (← pipes fuel)
    else return [c]

/-- Take a pipeline, the success of which may be turned round. -/
def pipeline : Nat → Reader Command
  | 0 => failure
  | fuel + 1 => do
    skipGap fuel
    if ← isReserved "!" then
      skip 1
      return .negation (← pipeline fuel)
    else
      match ← pipes fuel with
      | [c] => return c
      | cs => return .pipeline cs

/-- Take what follows a command that another one may depend on. -/
def chain (first : Command) : Nat → Reader Command
  | 0 => failure
  | fuel + 1 => do
    skipGap fuel
    if ← accept "&&" then
      skipLines fuel
      chain (.both first (← pipeline fuel)) fuel
    else if ← accept "||" then
      skipLines fuel
      chain (.either first (← pipeline fuel)) fuel
    else return first

/-- Take the commands of a line, up to its end or to a word that ends them. -/
def lineCommands (stops : List String) : Nat → Reader (List Command)
  | 0 => failure
  | fuel + 1 => do
    skipGap fuel
    let c ← chain (← pipeline fuel) fuel
    skipGap fuel
    let isEnd ← isNext ";;"
    let isSeparated ← if isEnd then pure false else separator
    if !isSeparated then return [c]
    else
      skipGap fuel
      let next ← peek
      if next.isNone ∨ next = some '\n' ∨ next = some ')' ∨ (← isNext ";;") ∨ (← isOneOf stops) then
        return [c]
      else return c :: (← lineCommands stops fuel)

/-- Take the commands inside a command, up to a word that ends them, or to a closing sign. -/
def block (stops : List String) : Nat → Reader (List Command)
  | 0 => failure
  | fuel + 1 => do
    skipLines fuel
    if (← peek).isNone ∨ (← isNext ")") ∨ (← isNext ";;") ∨ (← isOneOf stops) then return []
    else
      let cs ← lineCommands stops fuel
      skipGap fuel
      if ← isNext "\n" then return cs ++ (← block stops fuel)
      else if (← peek).isNone ∨ (← isNext ")") ∨ (← isNext ";;") ∨ (← isOneOf stops) then return cs
      else failure

end

/-- Take the commands of a complete line. -/
def completeLine (fuel : Nat) : Reader (List Command) := do
  let cs ← lineCommands [] fuel
  skipGap fuel
  if (← peek).isNone ∨ (← isNext "\n") then return cs else failure

end Reader

/-- Read lines up to the end, or to one that cannot be read. -/
def readLines (size : Nat) : Nat → Source → Script
  | 0, s => ⟨[], some s.line⟩
  | fuel + 1, s =>
    match (Reader.skipLines size).run s with
    | none => ⟨[], some s.line⟩
    | some (_, s) =>
      if s.rest.isEmpty then ⟨[], none⟩
      else
        match (Reader.completeLine size).run s with
        | none => ⟨[], some s.line⟩
        | some (cs, s) =>
          let script := readLines size fuel s
          { script with lines := cs :: script.lines }

/-- Read a script. -/
def readScript (text : Bytes) : Script :=
  readLines (12 * text.length + 24) (text.length + 1) ⟨text, 1⟩

end Fettle.Shell
