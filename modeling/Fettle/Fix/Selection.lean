import Fettle.Span.Edit

/-!
# Edits that do not overlap

Two edits of one pass must not touch the same characters. The edits are ranked from the end of the
text to its beginning, and an edit is kept if it ends at or before the start of the edit kept
before it. Edits with equal spans keep the order in which they are reported.
-/

namespace Fettle.Fix

/-- One edit ranks at or ahead of another if it ends later, or if it ends at the same position and
does not begin earlier. -/
def ranksAhead (a b : Edit) : Bool :=
  decide (b.stop < a.stop) || (decide (b.stop = a.stop) && decide (b.start ≤ a.start))

/-- The edits in rank order: the last end first, then the last start, then as reported. -/
def ranked (edits : List Edit) : List Edit := edits.mergeSort ranksAhead

/-- Keep, from a ranked list, each edit that ends at or before `limit`, the start of the edit kept
before it; without a limit the first edit is kept. -/
def keepClear : Option Position → List Edit → List Edit
  | _, [] => []
  | none, e :: es => e :: keepClear (some e.start) es
  | some limit, e :: es =>
    if e.stop ≤ limit then e :: keepClear (some e.start) es else keepClear (some limit) es

/-- The edits of a list that are applied together, in rank order. -/
def select (edits : List Edit) : List Edit := keepClear none (ranked edits)

end Fettle.Fix
