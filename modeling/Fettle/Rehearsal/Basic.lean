import Fettle.Engine.Startup
import Fettle.Lint.Wire
import Fettle.Text.Occurrences

/-!
# Rehearsed engines

Engines that act from a script instead of running tools. They remember how often they were asked
and what they heard, so that the calls of a run can be read off afterwards.
-/

namespace Fettle.Rehearsal

/-- One call that an engine heard, with the text it was given. -/
inductive Heard where
  /-- A call to the formatter. -/
  | format (text : String)
  /-- A call to the source whose fixes are applied. -/
  | check (text : String)
  /-- A call to the source whose findings are reported. -/
  | lint (text : String)
deriving DecidableEq, Inhabited, Repr

/-- What the engines remember. -/
structure Memory where
  /-- What they heard, the latest last. -/
  heard : List Heard := []
  /-- The number of calls to the formatter. -/
  formats : Nat := 0
  /-- The number of calls to the source whose fixes are applied. -/
  checks : Nat := 0
  /-- The number of calls to the source whose findings are reported. -/
  lints : Nat := 0
  /-- The number of attempts to start the engines. -/
  attempts : Nat := 0
deriving DecidableEq, Inhabited, Repr

/-! ## Diagnostic sources -/

/-- The answer to one call. -/
inductive Answer where
  /-- A report. -/
  | report (diagnostics : List Diagnostic)
  /-- A failure. -/
  | fail (reason : String)
  /-- A report as the lint engine writes it. -/
  | payload (text : String)

/-- Give an answer. -/
def Answer.give : Answer → Except EngineError (List Diagnostic)
  | report diagnostics => .ok diagnostics
  | fail reason => .error (.diagnosis reason)
  | payload text =>
    (Lint.readReport text).mapError fun f => .diagnosis (Lint.reportMessage text f)

/-- A rule that flags every occurrence of a text. -/
structure Rule where
  /-- The code of the rule. -/
  code : Option String
  /-- The text that is flagged. -/
  find : String
  /-- What should stand in its place; nothing means that there is no fix. -/
  replacement : Option String
  /-- How far the fix can be trusted. -/
  applicability : Option Applicability
  /-- What is said about an occurrence. -/
  message : String
  /-- What is said about the fix. -/
  fixMessage : Option String

namespace Rule

/-- The diagnostic for an occurrence at a row and a column. -/
def diagnose (r : Rule) (row column : Nat) : Diagnostic :=
  let start : Position := ⟨row, column⟩
  let stop : Position := ⟨row, column + r.find.length⟩
  { ruleCode := r.code
    message := r.message
    location := some start
    endLocation := some stop
    fixMessage := r.fixMessage
    edits := (r.replacement.map fun content => Edit.mk start stop content).toList
    applicability := r.applicability }

/-- The diagnostics of rules on a text: row by row, in each row rule by rule. -/
def check (rules : List Rule) (text : String) : List Diagnostic :=
  (Text.rows text.toList).zipIdx.flatMap fun (line, row) =>
    rules.flatMap fun r => (Text.occurrences r.find.toList line).map (r.diagnose row)

end Rule

/-- How a diagnostic source acts. -/
inductive Script where
  /-- It gives the answers in order; when they are used up, it gives the last one for ever, or
  reports nothing. -/
  | answers (answers : List Answer) (again : Bool)
  /-- It flags what the rules flag, except for one call on which it fails. -/
  | rules (rules : List Rule) (failOn : Option Nat)

/-- The answer of a source to a text on its `n`-th call, counted from one. -/
def Script.answer (s : Script) (n : Nat) (text : String) :
    Except EngineError (List Diagnostic) :=
  match s with
  | answers as again =>
    match as[n - 1]? with
    | some a => a.give
    | none =>
      match as.getLast? with
      | some a => if again then a.give else .ok []
      | none => .ok []
  | rules rs failOn =>
    if failOn = some n then .error (.diagnosis s!"crashed on call {n}")
    else .ok (Rule.check rs text)

/-- The source whose fixes are applied. -/
def Script.checker (s : Script) : Fix.Source EngineError Memory := fun text memory =>
  let n := memory.checks + 1
  (s.answer n text, { memory with checks := n, heard := memory.heard ++ [.check text] })

/-- The source whose findings are reported. -/
def Script.linter (s : Script) : Fix.Source EngineError Memory := fun text memory =>
  let n := memory.lints + 1
  (s.answer n text, { memory with lints := n, heard := memory.heard ++ [.lint text] })

/-! ## Formatters -/

/-- One thing that a formatter does. -/
inductive Step where
  /-- Remove blanks at the ends of lines and empty lines at the end of the text. -/
  | tidy
  /-- Append a line that shows the options. -/
  | stamp
  /-- Replace every occurrence of a text. -/
  | replace (pattern replacement : String)
  /-- Reject a text that contains another. -/
  | reject (pattern reason : String)
  /-- Fail on one call. -/
  | failOn (call : Nat) (reason : String)

/-- A text without blanks at the ends of its lines and without empty lines at its end, each line
ended by a line feed. -/
def tidyText (text : String) : String :=
  let isTrailing (c : Char) := c == ' ' || c == '\t'
  let lines := (Text.rows text.toList).map fun line =>
    (line.reverse.dropWhile isTrailing).reverse
  let lines := (lines.reverse.dropWhile List.isEmpty).reverse
  String.ofList (lines.flatMap (· ++ ['\n']))

/-- Do one thing to a text on the `n`-th call. -/
def Step.run (options : FormatOptions) (n : Nat) (text : String) :
    Step → Except EngineError String
  | tidy => .ok (tidyText text)
  | stamp =>
    let quotes := if options.normalizeQuotes then "true" else "false"
    .ok (text ++ s!"# line_length={options.lineLength} quotes={quotes}\n")
  | replace pattern replacement => .ok (Text.replaceAll pattern replacement text)
  | reject pattern reason =>
    if Text.occursIn pattern text then .error (.format reason) else .ok text
  | failOn call reason => if call = n then .error (.format reason) else .ok text

/-- The formatter that does some things in order. -/
def formatter (steps : List Step) : Formatter Memory := fun options text memory =>
  let n := memory.formats + 1
  (steps.foldlM (Step.run options n) text,
    { memory with formats := n, heard := memory.heard ++ [.format text] })

/-! ## Starting -/

/-- One attempt of a script: how long it takes, and why it fails if it does. -/
structure ScriptedAttempt where
  /-- How long the attempt takes. -/
  duration : Duration := ⟨0⟩
  /-- Why it fails. -/
  failure : Option String := none

/-- Attempts that go as scripted; when the script is used up, they succeed at once. -/
def provide {α : Type} (script : List ScriptedAttempt) (engines : α) :
    StateM Memory (Attempt α) := fun memory =>
  let a := script[memory.attempts]?.getD {}
  let outcome := match a.failure with
    | some reason => .error (.startup reason)
    | none => .ok engines
  (⟨outcome, a.duration⟩, { memory with attempts := memory.attempts + 1 })

/-- Rehearsed engines; without a linter of their own, findings are reported by the source whose
fixes are applied. -/
def engines (steps : List Step) (source : Script) (linter : Option Script) : Engines Memory where
  formatter := formatter steps
  diagnostics := source.checker
  linter := match linter with
    | some script => script.linter
    | none => source.checker

end Fettle.Rehearsal
