import Fettle.Json.Record
import Fettle.Json.Writer
import Fettle.Span.Edit

/-!
# Span edits as JSON

Positions, edits, applicabilities and diagnostics are written as JSON objects with all members,
and read back from any JSON text that spells them.
-/

namespace Fettle

open Json

namespace Position

/-- How a position is read. -/
def record : Record Position where
  name := "Position"
  start := ⟨0, 0⟩
  fields := [
    ⟨"row", fun p => (⟨·, p.column⟩) <$> readNat, false, false⟩,
    ⟨"column", fun p => (⟨p.row, ·⟩) <$> readNat, false, false⟩]

/-- A position as a JSON value. -/
def toJson (p : Position) : Value :=
  .object [("row", .ofNat p.row), ("column", .ofNat p.column)]

end Position

namespace Edit

/-- How an edit is read. -/
def record : Record Edit where
  name := "Edit"
  start := default
  fields := [
    ⟨"start", fun e => (⟨·, e.stop, e.content⟩) <$> Position.record.read, false, false⟩,
    ⟨"end", fun e => (⟨e.start, ·, e.content⟩) <$> Position.record.read, false, false⟩,
    ⟨"content", fun e => (⟨e.start, e.stop, ·⟩) <$> readText, false, false⟩]

/-- An edit as a JSON value. -/
def toJson (e : Edit) : Value :=
  .object [("start", e.start.toJson), ("end", e.stop.toJson), ("content", .string e.content)]

end Edit

namespace Applicability

/-- Read an applicability from its word. -/
def read : Reader Applicability := readWord ofLabel

/-- An applicability as a JSON value. -/
def toJson (a : Applicability) : Value := .string a.label

end Applicability

namespace Diagnostic

/-- How a diagnostic is read. An object may lack any member; a list may not lack the first and
the last. -/
def record : Record Diagnostic where
  name := "Diagnostic"
  start := {}
  fields := [
    ⟨"rule_code", fun d => ({ d with ruleCode := · }) <$> readOption readText, true, false⟩,
    ⟨"message", fun d => ({ d with message := · }) <$> readText, true, true⟩,
    ⟨"location", fun d => ({ d with location := · }) <$> readOption Position.record.read,
      true, true⟩,
    ⟨"end_location", fun d => ({ d with endLocation := · }) <$> readOption Position.record.read,
      true, true⟩,
    ⟨"fix_message", fun d => ({ d with fixMessage := · }) <$> readOption readText, true, true⟩,
    ⟨"edits", fun d => ({ d with edits := · }) <$> readList Edit.record.read, true, true⟩,
    ⟨"applicability", fun d => ({ d with applicability := · }) <$> readOption Applicability.read,
      true, false⟩]

/-- A diagnostic as a JSON value. -/
def toJson (d : Diagnostic) : Value :=
  .object [
    ("rule_code", .ofOption .string d.ruleCode),
    ("message", .string d.message),
    ("location", .ofOption Position.toJson d.location),
    ("end_location", .ofOption Position.toJson d.endLocation),
    ("fix_message", .ofOption .string d.fixMessage),
    ("edits", .array (d.edits.map Edit.toJson)),
    ("applicability", .ofOption Applicability.toJson d.applicability)]

end Diagnostic

end Fettle
