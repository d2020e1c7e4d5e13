import Fettle.Engine.Error
import Fettle.Fix.Converge

/-!
# Engines

A formatter and two diagnostic sources, one for fixing and one for reports. Nothing is known of
them but their answers; each may remember what it was asked, so a call is a computation on the
memory that the engines share. A call always comes to an answer, which may be a failure.
-/

namespace Fettle

/-- What the formatter is told on every call. -/
structure FormatOptions where
  /-- The line length to aim at. -/
  lineLength : Nat := 88
  /-- Whether string quotes are made alike. -/
  normalizeQuotes : Bool := true
deriving DecidableEq, Inhabited, Repr

/-- A call to an engine with memory `σ`: it may fail, and the memory may change either way. -/
abbrev Call (σ α : Type) := ExceptT EngineError (StateM σ) α

/-- A formatter answers a text with the formatted text. -/
abbrev Formatter (σ : Type) := FormatOptions → String → Call σ String

/-- The engines of one service. -/
structure Engines (σ : Type) where
  /-- The formatter. -/
  formatter : Formatter σ
  /-- The diagnostic source whose fixes are applied. -/
  diagnostics : Fix.Source EngineError σ
  /-- The diagnostic source whose findings are reported. -/
  linter : Fix.Source EngineError σ

end Fettle
