import Fettle.Span.Edit

/-!
# Which edits may be applied

A fix may be applied unasked if its rule is on the allow-list and the engine does not call it
anything but safe. Of such fixes the well-formed edits are admissible.
-/

namespace Fettle.Fix

/-- A rule is allowed if it has a code and some non-empty entry of the allow-list begins that
code. -/
def isAllowed (code : Option String) (allowList : List String) : Bool :=
  match code with
  | none => false
  | some code => allowList.any fun entry =>
      !entry.isEmpty && entry.toList.isPrefixOf code.toList

/-- A fix is applied unasked if it is called safe or if nothing is said about it. -/
def isAutomatic : Option Applicability → Bool
  | none => true
  | some .safe => true
  | some _ => false

/-- A diagnostic is admitted if its rule is allowed and its fix may be applied unasked. -/
def isAdmitted (allowList : List String) (d : Diagnostic) : Bool :=
  isAllowed d.ruleCode allowList && isAutomatic d.applicability

/-- The well-formed edits of the admitted diagnostics, in the order in which they are reported. -/
def admissible (report : List Diagnostic) (allowList : List String) : List Edit :=
  (report.filter (isAdmitted allowList)).flatMap fun d =>
    d.edits.filter fun e => e.WellFormed

end Fettle.Fix
