import Fettle.Engine.Basic

/-!
# The pipeline

A text is formatted, fixed until no fix is left, and formatted again. The first stage that fails
ends the run; what is left then is the last text that can be trusted: the first formatter's output
if fixing failed, and the source otherwise.
-/

namespace Fettle

/-- The rules whose fixes are applied by default: import order, language upgrades, unused names,
and simpler comparisons and comprehensions. -/
def defaultAllowList : List String :=
  ["I", "UP", "F841", "F401", "E711", "E712", "E713", "E714", "SIM201", "SIM202", "SIM208",
    "SIM300", "C400", "C401", "C402", "C403", "C404", "C405", "C406", "C408", "C409", "C410",
    "C411", "C413", "C414", "C416", "C417", "C418", "C419"]

/-- The ceiling of fix passes by default. -/
def defaultMaxPasses : Nat := 100

/-- The stages of a run, in order. -/
inductive Stage where
  /-- The first run of the formatter. -/
  | format
  /-- Fixing until no fix is left. -/
  | fix
  /-- The second run of the formatter. -/
  | reformat
deriving DecidableEq, Inhabited, Repr

/-- The name of a stage. -/
def Stage.name : Stage → String
  | format => "format"
  | fix => "fix"
  | reformat => "reformat"

/-- What a pipeline is set to do. -/
structure Pipeline where
  /-- What the formatter is told in both stages. -/
  format : FormatOptions := {}
  /-- The rules whose fixes are applied. -/
  allowList : List String := defaultAllowList
  /-- The ceiling of fix passes. -/
  maxPasses : Nat := defaultMaxPasses
deriving DecidableEq, Inhabited, Repr

namespace Pipeline

/-- What a successful run did. -/
structure Summary where
  /-- The stages that ran. -/
  stagesRun : List Stage
  /-- The number of fix passes. -/
  fixPasses : Nat
  /-- The number of edits applied in all fix passes. -/
  fixesApplied : Nat
  /-- Whether fixing stopped at the ceiling of passes. -/
  fixExhausted : Bool
deriving DecidableEq, Inhabited, Repr

/-- A successful run. -/
structure Outcome where
  /-- The final text. -/
  formatted : String
  /-- Whether the final text differs from the source. -/
  changed : Bool
  /-- What the run did. -/
  summary : Summary
deriving DecidableEq, Inhabited, Repr

/-- A run that a stage has ended. -/
structure Failure where
  /-- The stage that failed. -/
  stage : Stage
  /-- Why it failed. -/
  error : EngineError
  /-- The last text that can be trusted. -/
  fallback : String
  /-- The stages that were completed. -/
  stagesRun : List Stage
deriving DecidableEq, Inhabited, Repr

/-- The message of a failed run. -/
def Failure.message (f : Failure) : String := s!"{f.stage.name} stage failed: {f.error.message}"

/-- Turn the failure of an engine into the failure of a stage. -/
def attempt {σ α : Type} (stage : Stage) (fallback : String) (stagesRun : List Stage)
    (call : Call σ α) : ExceptT Failure (StateM σ) α :=
  call.adapt fun error => ⟨stage, error, fallback, stagesRun⟩

/-- Format, fix and format again. -/
def run {σ : Type} (p : Pipeline) (engines : Engines σ) (source : String) :
    ExceptT Failure (StateM σ) Outcome := do
  let formatted ← attempt .format source [] (engines.formatter p.format source)
  let fixed ← attempt .fix formatted [.format]
    (Fix.converge engines.diagnostics p.allowList p.maxPasses formatted)
  let reformatted ← attempt .reformat source [.format, .fix]
    (engines.formatter p.format fixed.text)
  pure {
    formatted := reformatted
    changed := reformatted ≠ source
    summary := {
      stagesRun := [.format, .fix, .reformat]
      fixPasses := fixed.passes
      fixesApplied := fixed.applied
      fixExhausted := fixed.state = .exhausted } }

end Pipeline

end Fettle
