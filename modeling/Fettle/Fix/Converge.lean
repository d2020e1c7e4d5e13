import Fettle.Fix.Admission
import Fettle.Fix.Patch
import Fettle.Fix.Selection

/-!
# Repeated fixing

One pass takes the admissible edits of a report, selects those that do not overlap and patches the
text. The loop asks a diagnostic source about the text and performs a pass, until no admissible
edit is left, or the ceiling of passes is met, or the source fails. A source may remember what it
was asked, so a run is a computation on its memory.
-/

namespace Fettle.Fix

/-- What one pass did. -/
structure Pass where
  /-- The number of edits applied. -/
  applied : Nat
  /-- The text after the pass. -/
  text : String
deriving DecidableEq, Inhabited, Repr

/-- One pass over a text: filter, select, patch. -/
def runPass (text : String) (report : List Diagnostic) (allowList : List String) : Pass :=
  let kept := select (admissible report allowList)
  ⟨kept.length, patch text kept⟩

/-- How a run of passes ended. -/
inductive State where
  /-- No admissible edit was left. -/
  | converged
  /-- The ceiling of passes was met. -/
  | exhausted
deriving DecidableEq, Inhabited, Repr

/-- The end of a run of passes. -/
structure Outcome where
  /-- The text at the end. -/
  text : String
  /-- The number of passes performed. -/
  passes : Nat
  /-- The number of edits applied in all passes. -/
  applied : Nat
  /-- Why the run ended. -/
  state : State
deriving DecidableEq, Inhabited, Repr

/-- A diagnostic source answers a text with a report or fails with an error, and may change its
memory either way. -/
abbrev Source (ε σ : Type) := String → ExceptT ε (StateM σ) (List Diagnostic)

/-- Go on with a run that has performed `passes` passes with `applied` edits and may perform as
many more as its first argument says. -/
def convergeFrom {ε σ : Type} (source : Source ε σ) (allowList : List String) :
    Nat → String → Nat → Nat → ExceptT ε (StateM σ) Outcome
  | 0, text, passes, applied => pure ⟨text, passes, applied, .exhausted⟩
  | left + 1, text, passes, applied => do
    let report ← source text
    let pass := runPass text report allowList
    if pass.applied = 0 then pure ⟨text, passes, applied, .converged⟩
    else convergeFrom source allowList left pass.text (passes + 1) (applied + pass.applied)

/-- Fix a text until nothing is left to fix, in at most `maxPasses` passes. -/
def converge {ε σ : Type} (source : Source ε σ) (allowList : List String) (maxPasses : Nat)
    (text : String) : ExceptT ε (StateM σ) Outcome :=
  convergeFrom source allowList maxPasses text 0 0

end Fettle.Fix
