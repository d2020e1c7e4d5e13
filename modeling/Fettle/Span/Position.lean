/-!
# Positions in a text

A position is a row and a column, both counted from zero; a column counts characters. Positions
are ordered row by row, as they follow each other in a text.
-/

namespace Fettle

/-- A place in a text: a row, and a column counted in characters, both from zero. -/
structure Position where
  /-- The row, counted from zero. -/
  row : Nat
  /-- The column, counted in characters from zero. -/
  column : Nat
deriving DecidableEq, Inhabited, Repr

namespace Position

/-- A position is at or before another if its row is smaller, or the rows agree and its column is
not larger. -/
instance : LE Position :=
  ⟨fun a b => a.row < b.row ∨ a.row = b.row ∧ a.column ≤ b.column⟩

/-- A position is before another if its row is smaller, or the rows agree and its column is
smaller. -/
instance : LT Position :=
  ⟨fun a b => a.row < b.row ∨ a.row = b.row ∧ a.column < b.column⟩

/-- Positions are ordered by row, and within a row by column. -/
theorem le_def {a b : Position} :
    a ≤ b ↔ a.row < b.row ∨ a.row = b.row ∧ a.column ≤ b.column := Iff.rfl

/-- A position comes before another in an earlier row, or in the same row and an earlier column. -/
theorem lt_def {a b : Position} :
    a < b ↔ a.row < b.row ∨ a.row = b.row ∧ a.column < b.column := Iff.rfl

/-- A position is its row and its column. -/
theorem ext_iff {a b : Position} : a = b ↔ a.row = b.row ∧ a.column = b.column := by
  cases a
  cases b
  rw [mk.injEq]

instance (a b : Position) : Decidable (a ≤ b) := decidable_of_iff _ le_def.symm

instance (a b : Position) : Decidable (a < b) := decidable_of_iff _ lt_def.symm

/-- No position comes before itself. -/
protected theorem le_refl (a : Position) : a ≤ a := by
  rw [le_def]
  omega

/-- The order of positions is transitive. -/
protected theorem le_trans {a b c : Position} (hab : a ≤ b) (hbc : b ≤ c) : a ≤ c := by
  rw [le_def] at *
  omega

/-- How one position lies to another in the order of the text. -/
def order (a b : Position) : Ordering :=
  if a < b then .lt else if a = b then .eq else .gt

/-- The position of a row and a column that are counted from one; zero is taken as one. -/
def ofOneBased (row column : Nat) : Position := ⟨row - 1, column - 1⟩

end Position

end Fettle
