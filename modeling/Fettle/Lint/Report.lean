import Fettle.Service.Response

/-!
# The lint report as plain text

One line for each finding, with its place, code and message, and a last line with the count.
-/

namespace Fettle.Lint

/-- Where a finding is: the name of the text, and the line and column if both are known. -/
def place (name : String) (e : LintEntry) : String :=
  match e.line, e.column with
  | some line, some column => s!"{name}:{line}:{column}:"
  | _, _ => name ++ ":"

/-- The line of one finding, without its line feed. -/
def renderEntry (name : String) (e : LintEntry) : String :=
  let code := e.code.getD "syntax-error"
  let mark := if e.fixable then " [*]" else ""
  let fix := match e.fixMessage with
    | some message => " (" ++ message ++ ")"
    | none => ""
  place name e ++ " " ++ code ++ " " ++ e.message ++ mark ++ fix

/-- The last line, with the number of findings and how many of them have a fix. -/
def renderCount (total fixable : Nat) : String :=
  if total = 0 then "All checks passed!"
  else if total = 1 then s!"Found 1 issue ({fixable} fixable)."
  else s!"Found {total} issues ({fixable} fixable)."

/-- The lines of a report, without their line feeds. -/
def reportLines (name : String) (r : LintResponse) : List String :=
  r.diagnostics.map (renderEntry name) ++
    [renderCount r.totalIssues (r.diagnostics.countP (·.fixable))]

/-- The report as plain text. -/
def render (name : String) (r : LintResponse) : String :=
  String.join ((reportLines name r).map (· ++ "\n"))

end Fettle.Lint
