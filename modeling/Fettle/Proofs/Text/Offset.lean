import Fettle.Span.Position
import Fettle.Text.Rows
import Mathlib.Algebra.Ring.Nat

/-!
# Positions and offsets

A position names a place in a text by its row and column, an offset by the number of characters
before it. A position that the text does not have stands for the nearest place that it has: a
column past the end of its row for that end, and a row past the last one for the end of the text.
-/

namespace Fettle.Text

/-- A position lies inside a text if its row exists and its column is not past the end of that
row. -/
def Inside (text : List Char) (p : Position) : Prop :=
  ∃ row, (rows text)[p.row]? = some row ∧ p.column ≤ row.length

instance (text : List Char) (p : Position) : Decidable (Inside text p) :=
  match h : (rows text)[p.row]? with
  | none => .isFalse fun ⟨row, hrow, _⟩ => by rw [h] at hrow; cases hrow
  | some row =>
    if hc : p.column ≤ row.length then .isTrue ⟨row, h, hc⟩
    else .isFalse fun ⟨row', hrow, hc'⟩ => by
      rw [h, Option.some.injEq] at hrow
      exact hc (hrow ▸ hc')

/-- The offset of the place that a position stands for: each row before it counts its characters
and a line feed. -/
def offset (text : List Char) (p : Position) : Nat :=
  match (rows text)[p.row]? with
  | some row => (((rows text).take p.row).map (·.length + 1)).sum + min p.column row.length
  | none => text.length

/-- The length of a text with some rows and a last one: a line feed follows each of the others. -/
theorem length_ofRows_append_singleton (before : List (List Char)) (row : List Char) :
    (ofRows (before ++ [row])).length = (before.map (·.length + 1)).sum + row.length := by
  induction before with
  | nil => simp
  | cons first before ih =>
    rw [List.cons_append, ← List.singleton_append, ofRows_append (by simp) (by simp),
      ofRows_singleton, List.length_append, List.length_cons, ih, List.map_cons, List.sum_cons]
    omega

end Fettle.Text
