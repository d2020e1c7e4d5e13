import Fettle.Span.Json
import Fettle.Text.Blank

/-!
# The lint engine's report

The lint engine writes its findings as a JSON list. Rows and columns are counted from one there,
and a finding's edits stand inside its fix. Reading a report turns every finding into a
diagnostic, in order; a blank report has no findings.
-/

namespace Fettle.Lint

open Json

/-- A place as the engine writes it, counted from one. -/
structure Location where
  /-- The row, counted from one. -/
  row : Nat
  /-- The column, counted from one. -/
  column : Nat
deriving DecidableEq, Inhabited, Repr

/-- One edit of a fix as the engine writes it. -/
structure Change where
  /-- What stands in place of the span; nothing stands for the empty text. -/
  content : Option String := none
  /-- Where the span begins. -/
  location : Location
  /-- Where the span ends. -/
  endLocation : Location
deriving DecidableEq, Inhabited, Repr

/-- A fix as the engine writes it. -/
structure Fix where
  /-- How far the engine vouches for it. -/
  applicability : Option Applicability := none
  /-- What the engine says about it. -/
  message : Option String := none
  /-- Its edits. -/
  edits : List Change := []
deriving DecidableEq, Inhabited, Repr

/-- A finding as the engine writes it. -/
structure Finding where
  /-- The rule that was broken. -/
  code : Option String := none
  /-- What the engine says about it. -/
  message : String := ""
  /-- Where the flagged span begins. -/
  location : Option Location := none
  /-- Where the flagged span ends. -/
  endLocation : Option Location := none
  /-- The fix, if there is one. -/
  fix : Option Fix := none
deriving DecidableEq, Inhabited, Repr

/-- The position of a place that is counted from one. -/
def Location.toPosition (l : Location) : Position := .ofOneBased l.row l.column

/-- The edit that a change stands for. -/
def Change.toEdit (c : Change) : Edit :=
  ⟨c.location.toPosition, c.endLocation.toPosition, c.content.getD ""⟩

/-- The diagnostic that a finding stands for. -/
def Finding.toDiagnostic (f : Finding) : Diagnostic where
  ruleCode := f.code
  message := f.message
  location := f.location.map Location.toPosition
  endLocation := f.endLocation.map Location.toPosition
  fixMessage := f.fix.bind (·.message)
  edits := (f.fix.map (·.edits.map Change.toEdit)).getD []
  applicability := f.fix.bind (·.applicability)

/-- How a place is read. -/
def Location.record : Record Location where
  name := "WireLocation"
  start := ⟨0, 0⟩
  fields := [
    ⟨"row", fun l => (⟨·, l.column⟩) <$> readNat, false, false⟩,
    ⟨"column", fun l => (⟨l.row, ·⟩) <$> readNat, false, false⟩]

/-- How a change is read. -/
def Change.record : Record Change where
  name := "WireEdit"
  start := default
  fields := [
    ⟨"content", fun c => ({ c with content := · }) <$> readOption readText, true, true⟩,
    ⟨"location", fun c => ({ c with location := · }) <$> Location.record.read, false, false⟩,
    ⟨"end_location", fun c => ({ c with endLocation := · }) <$> Location.record.read,
      false, false⟩]

/-- How a fix is read. -/
def Fix.record : Record Fix where
  name := "WireFix"
  start := {}
  fields := [
    ⟨"applicability", fun f => ({ f with applicability := · }) <$> readOption Applicability.read,
      true, true⟩,
    ⟨"message", fun f => ({ f with message := · }) <$> readOption readText, true, true⟩,
    ⟨"edits", fun f => ({ f with edits := · }) <$> readList Change.record.read, true, true⟩]

/-- How a finding is read. -/
def Finding.record : Record Finding where
  name := "WireDiagnostic"
  start := {}
  fields := [
    ⟨"code", fun f => ({ f with code := · }) <$> readOption readText, true, true⟩,
    ⟨"message", fun f => ({ f with message := · }) <$> readText, true, true⟩,
    ⟨"location", fun f => ({ f with location := · }) <$> readOption Location.record.read,
      true, true⟩,
    ⟨"end_location", fun f => ({ f with endLocation := · }) <$> readOption Location.record.read,
      true, true⟩,
    ⟨"fix", fun f => ({ f with fix := · }) <$> readOption Fix.record.read, true, true⟩]

/-- The diagnostics of a report. -/
def readReport (payload : String) : Except Fault (List Diagnostic) :=
  if Text.allBlank payload then .ok []
  else (Json.parse (readList Finding.record.read) payload).map (·.map Finding.toDiagnostic)

/-- The message for a report that cannot be read. -/
def reportMessage (payload : String) (f : Fault) : String :=
  "Diagnostic decode error: " ++ f.message payload.toList

end Fettle.Lint
