import Fettle.Json.Writer
import Fettle.Pipeline

/-!
# Responses

Every request is answered. The answer to a formatting request carries the formatted text, or, if
anything failed, the text of the request unchanged together with a message. The answer to a lint
request lists the findings, with lines and columns counted from one.
-/

namespace Fettle

open Json (Value)

/-- The answer to a formatting request. -/
structure FormatResponse where
  /-- Whether every stage succeeded. -/
  success : Bool
  /-- The formatted text, or the text of the request if a stage failed. -/
  formatted : String
  /-- Whether `formatted` differs from the text of the request. -/
  changed : Bool
  /-- What was done, on success. -/
  summary : Option Pipeline.Summary
  /-- What went wrong, on failure. -/
  error : Option String
deriving DecidableEq, Inhabited, Repr

namespace FormatResponse

/-- The answer to a request that failed. -/
def failure (source : String) (error : EngineError) : FormatResponse :=
  ⟨false, source, false, none, some error.message⟩

/-- The answer to a request for all stages that succeeded. -/
def ofOutcome (o : Pipeline.Outcome) : FormatResponse :=
  ⟨true, o.formatted, o.changed, some o.summary, none⟩

/-- The answer to a request for formatting alone that succeeded. -/
def ofFormatted (source formatted : String) : FormatResponse :=
  ⟨true, formatted, formatted ≠ source, some ⟨[.format], 0, 0, false⟩, none⟩

/-- What was done, as a JSON value. -/
def summaryToJson (s : Pipeline.Summary) : Value :=
  .object [
    ("stages_run", .array (s.stagesRun.map (.string ·.name))),
    ("fix_passes", .ofNat s.fixPasses),
    ("fixes_applied", .ofNat s.fixesApplied),
    ("fix_exhausted", .bool s.fixExhausted)]

/-- A member that is left out if it is absent. -/
def optionalMember {α : Type} (name : String) (f : α → Value) (a : Option α) :
    List (String × Value) :=
  (a.map fun a => (name, f a)).toList

/-- The answer as a JSON value. -/
def toJson (r : FormatResponse) : Value :=
  .object (
    [("success", .bool r.success), ("formatted", .string r.formatted),
      ("changed", .bool r.changed)] ++
    optionalMember "summary" summaryToJson r.summary ++
    optionalMember "error" .string r.error)

end FormatResponse

/-- One finding of a lint report. -/
structure LintEntry where
  /-- The rule that was broken; a syntax error has none. -/
  code : Option String
  /-- What the engine says about it. -/
  message : String
  /-- The line where the flagged span begins, counted from one. -/
  line : Option Nat
  /-- The column where it begins, counted from one. -/
  column : Option Nat
  /-- The line where it ends. -/
  endLine : Option Nat
  /-- The column where it ends. -/
  endColumn : Option Nat
  /-- Whether the engine offers a fix. -/
  fixable : Bool
  /-- What the engine says about the fix. -/
  fixMessage : Option String
deriving DecidableEq, Inhabited, Repr

namespace LintEntry

/-- The entry for a diagnostic. -/
def ofDiagnostic (d : Diagnostic) : LintEntry where
  code := d.ruleCode
  message := d.message
  line := d.location.map (·.row + 1)
  column := d.location.map (·.column + 1)
  endLine := d.endLocation.map (·.row + 1)
  endColumn := d.endLocation.map (·.column + 1)
  fixable := d.hasFix
  fixMessage := d.fixMessage

/-- The entry as a JSON value. -/
def toJson (e : LintEntry) : Value :=
  .object (
    [("code", .ofOption .string e.code), ("message", .string e.message)] ++
    FormatResponse.optionalMember "line" .ofNat e.line ++
    FormatResponse.optionalMember "column" .ofNat e.column ++
    FormatResponse.optionalMember "end_line" .ofNat e.endLine ++
    FormatResponse.optionalMember "end_column" .ofNat e.endColumn ++
    [("fixable", .bool e.fixable)] ++
    FormatResponse.optionalMember "fix_message" .string e.fixMessage)

end LintEntry

/-- The answer to a lint request. -/
structure LintResponse where
  /-- Whether the lint engine could look at the text. -/
  success : Bool
  /-- The findings, in the order in which they were reported. -/
  diagnostics : List LintEntry
  /-- The number of findings. -/
  totalIssues : Nat
  /-- What went wrong, on failure. -/
  error : Option String
deriving DecidableEq, Inhabited, Repr

namespace LintResponse

/-- The answer to a request that failed. -/
def failure (error : EngineError) : LintResponse := ⟨false, [], 0, some error.message⟩

/-- The answer that lists the findings of a report. -/
def ofReport (report : List Diagnostic) : LintResponse :=
  ⟨true, report.map LintEntry.ofDiagnostic, report.length, none⟩

/-- The answer as a JSON value. -/
def toJson (r : LintResponse) : Value :=
  .object (
    [("success", .bool r.success), ("diagnostics", .array (r.diagnostics.map LintEntry.toJson)),
      ("total_issues", .ofNat r.totalIssues)] ++
    FormatResponse.optionalMember "error" .string r.error)

end LintResponse

end Fettle
