import Fettle.Span.Position

/-!
# Span edits

An edit replaces the characters between two positions by a content. It is well formed if its span
does not run backwards. A diagnostic is one finding of the lint engine, with the edits of its fix.
-/

namespace Fettle

/-- The replacement of the characters from `start` up to `stop` by `content`. -/
structure Edit where
  /-- Where the replaced span begins. -/
  start : Position
  /-- Where the replaced span ends; the character there is kept. -/
  stop : Position
  /-- What stands in place of the span. -/
  content : String
deriving DecidableEq, Inhabited, Repr

namespace Edit

/-- The edit that removes a span. -/
def deletion (start stop : Position) : Edit := ⟨start, stop, ""⟩

/-- The edit that puts a content at a position. -/
def insertion (place : Position) (content : String) : Edit := ⟨place, place, content⟩

/-- An edit is well formed if its span does not run backwards. -/
def WellFormed (e : Edit) : Prop := e.start ≤ e.stop

instance (e : Edit) : Decidable e.WellFormed := inferInstanceAs (Decidable (e.start ≤ e.stop))

/-- An edit stays on one row if both ends of its span name the same row. -/
def OnOneRow (e : Edit) : Prop := e.start.row = e.stop.row

instance (e : Edit) : Decidable e.OnOneRow :=
  inferInstanceAs (Decidable (e.start.row = e.stop.row))

end Edit

/-- How far the lint engine vouches for a fix. -/
inductive Applicability where
  /-- The fix keeps the meaning. -/
  | safe
  /-- The fix may change the meaning. -/
  | hazardous
  /-- The fix is for reading only. -/
  | displayOnly
  /-- The engine used a word that is not known here. -/
  | unknown
deriving DecidableEq, Inhabited, Repr

namespace Applicability

/-- The word written for an applicability. -/
def label : Applicability → String
  | safe => "safe"
  | hazardous => "unsafe"
  | displayOnly => "display-only"
  | unknown => "unknown"

/-- The applicability that a word stands for. An older spelling of `display-only` is understood;
every other word is `unknown`. -/
def ofLabel (s : String) : Applicability :=
  if s = "safe" then safe
  else if s = "unsafe" then hazardous
  else if s = "display-only" ∨ s = "displayonly" then displayOnly
  else unknown

end Applicability

/-- One finding of the lint engine. -/
structure Diagnostic where
  /-- The rule that was broken; a syntax error has none. -/
  ruleCode : Option String := none
  /-- What the engine says about it. -/
  message : String := ""
  /-- Where the flagged span begins. -/
  location : Option Position := none
  /-- Where the flagged span ends. -/
  endLocation : Option Position := none
  /-- What the engine says about the fix. -/
  fixMessage : Option String := none
  /-- The edits of the fix; empty if there is no fix. -/
  edits : List Edit := []
  /-- How far the engine vouches for the fix. -/
  applicability : Option Applicability := none
deriving DecidableEq, Inhabited, Repr

/-- A diagnostic has a fix if its fix carries an edit. -/
def Diagnostic.hasFix (d : Diagnostic) : Bool := !d.edits.isEmpty

end Fettle
