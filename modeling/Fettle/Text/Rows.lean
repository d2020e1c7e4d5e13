/-!
# The rows of a text

A text is cut into rows at its line feeds, so that there is one row more than there are line
feeds; an empty text has one empty row. Joining the rows with line feeds gives the text back.
-/

namespace Fettle.Text

/-- Put one more character in front of a text that is cut into pieces. -/
def cutStep (separator c : Char) (pieces : List (List Char)) : List (List Char) :=
  if c = separator then [] :: pieces
  else match pieces with
    | [] => [[c]]
    | piece :: pieces => (c :: piece) :: pieces

/-- Cut a text at every occurrence of a separator. -/
def cutAt (separator : Char) (text : List Char) : List (List Char) :=
  text.foldr (cutStep separator) [[]]

/-- The rows of a text: the pieces between its line feeds. -/
def rows (text : List Char) : List (List Char) := cutAt '\n' text

/-- The text with the given rows. -/
def ofRows (rows : List (List Char)) : List Char := ['\n'].intercalate rows

/-- The empty text has one empty piece. -/
@[simp] theorem cutAt_nil (separator : Char) : cutAt separator [] = [[]] := rfl

/-- A text is cut by cutting what follows its first character. -/
theorem cutAt_cons (separator c : Char) (text : List Char) :
    cutAt separator (c :: text) = cutStep separator c (cutAt separator text) := rfl

/-- A cut text has at least one piece. -/
theorem cutAt_ne_nil (separator : Char) (text : List Char) : cutAt separator text ≠ [] := by
  cases text with
  | nil => simp
  | cons c cs =>
    rw [cutAt_cons]
    unfold cutStep
    split
    · simp
    · split <;> simp

/-- A text has at least one row. -/
theorem rows_ne_nil (text : List Char) : rows text ≠ [] := cutAt_ne_nil _ _

/-- Joining rows puts a line feed between the first and the rest. -/
theorem ofRows_cons_cons (row next : List Char) (rows : List (List Char)) :
    ofRows (row :: next :: rows) = row ++ '\n' :: ofRows (next :: rows) := by
  simp [ofRows, List.intercalate]

/-- A character in front of the first row is a character in front of the text. -/
theorem ofRows_cons_head (c : Char) (row : List Char) (rows : List (List Char)) :
    ofRows ((c :: row) :: rows) = c :: ofRows (row :: rows) := by
  cases rows <;> simp [ofRows, List.intercalate]

/-- Joining the rows of a text gives the text. -/
theorem ofRows_rows (text : List Char) : ofRows (rows text) = text := by
  unfold rows
  induction text with
  | nil => rfl
  | cons c cs ih =>
    cases hcs : cutAt '\n' cs with
    | nil => exact absurd hcs (cutAt_ne_nil _ _)
    | cons row rows =>
      rw [hcs] at ih
      rw [cutAt_cons, hcs]
      unfold cutStep
      split
      · next h => rw [ofRows_cons_cons, ih, h]; rfl
      · exact (ofRows_cons_head c row rows).trans (congrArg (c :: ·) ih)

/-- No piece of a cut text holds the separator. -/
theorem not_mem_of_mem_cutAt {separator : Char} {text piece : List Char}
    (h : piece ∈ cutAt separator text) : separator ∉ piece := by
  induction text generalizing piece with
  | nil =>
    rw [cutAt_nil, List.mem_singleton] at h
    simp [h]
  | cons c cs ih =>
    rw [cutAt_cons] at h
    unfold cutStep at h
    split at h
    · rcases List.mem_cons.mp h with rfl | h
      · simp
      · exact ih h
    · next hc =>
      cases hcs : cutAt separator cs with
      | nil => exact absurd hcs (cutAt_ne_nil _ _)
      | cons first pieces =>
        rw [hcs] at h ih
        rcases List.mem_cons.mp h with rfl | h
        · have := ih (List.mem_cons_self ..)
          simp [Ne.symm hc, this]
        · exact ih (List.mem_cons_of_mem _ h)

/-- No row holds a line feed. -/
theorem not_mem_of_mem_rows {text row : List Char} (h : row ∈ rows text) : '\n' ∉ row :=
  not_mem_of_mem_cutAt h

/-- Characters in front of a text, none of them a line feed, stand in front of its first row. -/
theorem rows_append {front : List Char} (hfront : '\n' ∉ front) {text row : List Char}
    {more : List (List Char)} (h : rows text = row :: more) :
    rows (front ++ text) = (front ++ row) :: more := by
  induction front with
  | nil => exact h
  | cons c front ih =>
    rw [List.mem_cons, not_or] at hfront
    have hcut : cutAt '\n' (front ++ text) = (front ++ row) :: more := ih hfront.2
    rw [List.cons_append, rows, cutAt_cons, hcut]
    simp [cutStep, Ne.symm hfront.1]

/-- A single row is a text as it is. -/
@[simp] theorem ofRows_singleton (row : List Char) : ofRows [row] = row := by
  simp [ofRows, List.intercalate]

/-- Joining the rows of two groups joins the groups with a line feed between them. -/
theorem ofRows_append {xs ys : List (List Char)} (hx : xs ≠ []) (hy : ys ≠ []) :
    ofRows (xs ++ ys) = ofRows xs ++ '\n' :: ofRows ys := by
  obtain ⟨y, ys, rfl⟩ := List.exists_cons_of_ne_nil hy
  induction xs with
  | nil => exact absurd rfl hx
  | cons x xs ih =>
    cases xs with
    | nil => rw [ofRows_singleton, List.singleton_append, ofRows_cons_cons]
    | cons x' xs =>
      rw [List.cons_append, List.cons_append, ofRows_cons_cons, ofRows_cons_cons,
        List.append_assoc, List.cons_append, ← ih (by simp), List.cons_append]

/-- What stands in front of the first row stands in front of the text. -/
theorem ofRows_append_cons (front row : List Char) (rows : List (List Char)) :
    ofRows ((front ++ row) :: rows) = front ++ ofRows (row :: rows) := by
  induction front with
  | nil => rfl
  | cons c front ih => rw [List.cons_append, ofRows_cons_head, ih, List.cons_append]

/-- A row may be cut in two: the text is then that of the rows up to the cut, followed by that of
the rows from the cut on. -/
theorem ofRows_append_singleton_append (before : List (List Char)) (left right : List Char)
    (after : List (List Char)) :
    ofRows (before ++ [left]) ++ ofRows (right :: after) =
      ofRows (before ++ (left ++ right) :: after) := by
  cases before with
  | nil => simp [ofRows_append_cons]
  | cons row before =>
    rw [ofRows_append (by simp) (by simp), ofRows_append (by simp) (by simp), ofRows_singleton,
      ofRows_append_cons, List.append_assoc, List.cons_append]

/-- A row may hold line feeds: cutting it into rows does not change the text. -/
theorem ofRows_rows_append (text : List Char) (more : List (List Char)) :
    ofRows (rows text ++ more) = ofRows (text :: more) := by
  cases more with
  | nil => rw [List.append_nil, ofRows_rows, ofRows_singleton]
  | cons row more =>
    rw [ofRows_append (rows_ne_nil text) (by simp), ofRows_rows, ofRows_cons_cons]

end Fettle.Text
