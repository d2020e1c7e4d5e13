import Fettle.Fix.Patch
import Fettle.Proofs.Text.Offset
import Mathlib.Data.List.Basic
import Mathlib.Data.List.GetD

/-!
# What an edit leaves of a buffer

An edit that is applied to a buffer leaves everything before its start as it was. `keepUpTo`
is the shape that a buffer then has: the old buffer up to a position, and something else from
there on. Every edit that is applied at or before that position finds the old buffer where it
looks (`locate_keepUpTo`), and leaves a buffer of the same shape, cut at its own start
(`apply_keepUpTo`). So a run of edits from the end of a text to its beginning needs no more of
the buffer than this shape, although the rows behind the position have been joined, cut again or
filled with line feeds.
-/

namespace Fettle.Fix.Buffer

/-! ## Places of a buffer -/

/-- A buffer holds a position if it has the row and the row reaches up to the column. -/
def Holds (b : Buffer) (p : Position) : Prop :=
  p.row < b.length ∧ p.column ≤ (b.line p.row).length

/-- The text of a buffer before a position. -/
def before (b : Buffer) (p : Position) : List Char :=
  Text.ofRows (b.take p.row ++ [(b.line p.row).take p.column])

/-- The text of a buffer from a position on. -/
def after (b : Buffer) (p : Position) : List Char :=
  Text.ofRows ((b.line p.row).drop p.column :: b.drop (p.row + 1))

/-- The buffer that holds up to a position what `b` holds there, then the rest of a line, and then
more lines. -/
def keepUpTo (b : Buffer) (p : Position) (rest : List Char) (more : Buffer) : Buffer :=
  b.take p.row ++ ((b.line p.row).take p.column ++ rest) :: more

/-- The text of such a buffer. -/
theorem ofRows_keepUpTo (b : Buffer) (p : Position) (rest : List Char) (more : Buffer) :
    Text.ofRows (b.keepUpTo p rest more) = b.before p ++ Text.ofRows (rest :: more) :=
  (Text.ofRows_append_singleton_append _ _ _ _).symm

/-- A row that exists stands between the rows before it and those after it. -/
theorem take_append_line_cons_drop {b : Buffer} {row : ℕ} (h : row < b.length) :
    b.take row ++ b.line row :: b.drop (row + 1) = b := by
  have hline : b.line row = b[row] := List.getD_eq_getElem b [] h
  rw [hline, ← List.drop_eq_getElem_cons h, List.take_append_drop]

/-- A buffer keeps itself. -/
theorem keepUpTo_self {b : Buffer} {p : Position} (h : p.row < b.length) :
    b.keepUpTo p ((b.line p.row).drop p.column) (b.drop (p.row + 1)) = b := by
  rw [keepUpTo, List.take_append_drop, take_append_line_cons_drop h]

/-- The text of a buffer, cut at a position. -/
theorem before_append_after {b : Buffer} {p : Position} (h : p.row < b.length) :
    b.before p ++ b.after p = Text.ofRows b := by
  conv_rhs => rw [← keepUpTo_self h, ofRows_keepUpTo]
  rfl

/-- The length of the text before a position: each row before it counts its characters and a line
feed. -/
theorem length_before (b : Buffer) (p : Position) :
    (b.before p).length =
      ((b.take p.row).map (·.length + 1)).sum + min p.column (b.line p.row).length := by
  rw [before, Text.length_ofRows_append_singleton, List.length_take]

/-- A later position has no less text before it. -/
theorem length_before_le {b : Buffer} {p q : Position} (hle : q ≤ p) (hq : b.Holds q)
    (hp : p.row < b.length) : (b.before q).length ≤ (b.before p).length := by
  obtain ⟨hrow, hcolumn⟩ := hq
  rw [length_before, length_before]
  rcases hle with hlt | ⟨heq, hle⟩
  · -- The rows before `p` are those before `q`, the row of `q`, and perhaps some more.
    have htake : b.take p.row =
        b.take q.row ++ b.line q.row :: (b.take p.row).drop (q.row + 1) := by
      have hlen : q.row < (b.take p.row).length := by rw [List.length_take]; omega
      have hline : line (b.take p.row) q.row = b.line q.row := by
        unfold line
        rw [List.getD_eq_getElem _ _ hlen, List.getElem_take, List.getD_eq_getElem _ _ hrow]
      have h := take_append_line_cons_drop hlen
      rw [List.take_take, Nat.min_eq_left (Nat.le_of_lt hlt), hline] at h
      exact h.symm
    rw [htake, List.map_append, List.map_cons, List.sum_append, List.sum_cons]
    omega
  · rw [heq]
    omega

/-! ## Locating a position -/

/-- A position that the buffer holds is located where it is. -/
theorem locate_eq_self {b : Buffer} {p : Position} (h : b.Holds p) : b.locate p = p := by
  obtain ⟨hrow, hcolumn⟩ := h
  rw [locate, if_pos hrow, Nat.min_eq_left hcolumn]

/-- Every position is located at a place that the buffer holds. -/
theorem holds_locate {b : Buffer} (hb : b ≠ []) (p : Position) : b.Holds (b.locate p) := by
  have hlength : 0 < b.length := List.length_pos_iff.mpr hb
  unfold locate
  split_ifs with hrow
  · exact ⟨hrow, Nat.min_le_right _ _⟩
  · exact ⟨Nat.sub_lt hlength Nat.one_pos, Nat.le_refl _⟩

/-- Locating keeps the order of positions. -/
theorem locate_mono (b : Buffer) {p q : Position} (h : p ≤ q) : b.locate p ≤ b.locate q := by
  unfold locate
  rw [Position.le_def] at h
  split_ifs with hp hq hq
  -- Both rows exist; a smaller column may be cut off only if the larger one is.
  · rw [Position.le_def]
    dsimp only
    rcases h with h | ⟨h, h'⟩
    · exact .inl h
    · rw [h]
      omega
  -- Only the row of `p` exists; it may be the last one, whose end is where `q` is located.
  · rw [Position.le_def]
    dsimp only
    rcases Nat.lt_or_ge p.row (b.length - 1) with hlt | hge
    · exact .inl hlt
    · have hlast : p.row = b.length - 1 := by omega
      rw [hlast]
      omega
  · omega
  · exact Position.le_refl _

/-- The end of a buffer: the end of its last line. -/
def endPosition (b : Buffer) : Position := ⟨b.length - 1, (b.line (b.length - 1)).length⟩

/-- The end of a buffer is in it. -/
theorem holds_endPosition {b : Buffer} (hb : b ≠ []) : b.Holds b.endPosition :=
  ⟨Nat.sub_lt (List.length_pos_iff.mpr hb) Nat.one_pos, Nat.le_refl _⟩

/-- No position that a buffer holds lies after its end. -/
theorem Holds.le_endPosition {b : Buffer} {p : Position} (h : b.Holds p) :
    p ≤ b.endPosition := by
  obtain ⟨hrow, hcolumn⟩ := h
  rw [Position.le_def, endPosition]
  dsimp only
  rcases Nat.lt_or_ge p.row (b.length - 1) with hlt | hge
  · exact .inl hlt
  · have hlast : p.row = b.length - 1 := by omega
    rw [hlast] at hcolumn
    exact .inr ⟨hlast, hcolumn⟩

/-- Up to its end, a buffer is kept whole. -/
theorem keepUpTo_endPosition {b : Buffer} (hb : b ≠ []) : b.keepUpTo b.endPosition [] [] = b := by
  have hlength : 0 < b.length := List.length_pos_iff.mpr hb
  have h := keepUpTo_self (holds_endPosition hb).1
  rw [show (b.line b.endPosition.row).drop b.endPosition.column = [] from List.drop_length,
    List.drop_of_length_le (by dsimp only [endPosition]; omega)] at h
  exact h

/-! ## Looking at what is kept -/

section Kept

variable {b : Buffer} {p q : Position} {rest : List Char} {more : Buffer}

/-- A buffer that is kept up to a position has the rows up to there, and those that are put behind
them. -/
theorem length_keepUpTo (hp : p.row < b.length) :
    (b.keepUpTo p rest more).length = p.row + 1 + more.length := by
  rw [keepUpTo, List.length_append, List.length_take, List.length_cons]
  omega

/-- The rows before the cut are the old ones. -/
theorem take_keepUpTo (hp : p.row < b.length) (h : q.row ≤ p.row) :
    (b.keepUpTo p rest more).take q.row = b.take q.row := by
  rw [keepUpTo, List.take_append_of_le_length (by rw [List.length_take]; omega), List.take_take,
    Nat.min_eq_left h]

/-- A line before the cut is the old one. -/
theorem line_keepUpTo_of_lt (hp : p.row < b.length) (h : q.row < p.row) :
    (b.keepUpTo p rest more).line q.row = b.line q.row := by
  have hlen : q.row < (b.take p.row).length := by rw [List.length_take]; omega
  unfold line keepUpTo
  rw [List.getD_append _ _ _ _ hlen, List.getD_eq_getElem _ _ hlen, List.getElem_take,
    List.getD_eq_getElem _ _ (Nat.lt_trans h hp)]

/-- The line at the cut begins like the old one. -/
theorem line_keepUpTo (hp : p.row < b.length) :
    (b.keepUpTo p rest more).line p.row = (b.line p.row).take p.column ++ rest := by
  have hlen : (b.take p.row).length = p.row := by rw [List.length_take]; omega
  unfold line keepUpTo
  rw [List.getD_append_right _ _ _ _ (Nat.le_of_eq hlen), hlen, Nat.sub_self,
    List.getD_cons_zero]
  rfl

/-- Up to a position at or before the cut, every line is the old one. -/
theorem take_line_keepUpTo (hp : b.Holds p) (h : q ≤ p) :
    ((b.keepUpTo p rest more).line q.row).take q.column = (b.line q.row).take q.column := by
  rcases h with hlt | ⟨heq, hle⟩
  · rw [line_keepUpTo_of_lt hp.1 hlt]
  · rw [heq, line_keepUpTo hp.1, List.take_append_of_le_length
      (by rw [List.length_take]; have := hp.2; omega), List.take_take, Nat.min_eq_left hle]

/-- What is kept up to a position at or before the cut is the old buffer. -/
theorem keepUpTo_keepUpTo (hp : b.Holds p) (h : q ≤ p) (rest' : List Char) (more' : Buffer) :
    (b.keepUpTo p rest more).keepUpTo q rest' more' = b.keepUpTo q rest' more' := by
  have hrow : q.row ≤ p.row := by rw [Position.le_def] at h; omega
  rw [keepUpTo.eq_1 (b.keepUpTo p rest more), take_keepUpTo hp.1 hrow, take_line_keepUpTo hp h,
    keepUpTo]

/-- What stands before an earlier position is kept. -/
theorem before_keepUpTo (hp : b.Holds p) (h : q ≤ p) :
    (b.keepUpTo p rest more).before q = b.before q := by
  have hrow : q.row ≤ p.row := by rw [Position.le_def] at h; omega
  rw [before, take_keepUpTo hp.1 hrow, take_line_keepUpTo hp h, before]

/-- The old buffer's positions at or before the cut are still there. -/
theorem Holds.keepUpTo (hq : b.Holds q) (hp : b.Holds p) (h : q ≤ p) :
    (b.keepUpTo p rest more).Holds q := by
  refine ⟨?_, ?_⟩
  · rw [length_keepUpTo hp.1]
    rw [Position.le_def] at h
    omega
  -- The line is as long as the old one up to the column, so it reaches that far.
  · have hlen : (((b.keepUpTo p rest more).line q.row).take q.column).length =
        ((b.line q.row).take q.column).length := by rw [take_line_keepUpTo hp h]
    rw [List.length_take, List.length_take] at hlen
    have := hq.2
    omega

/-- An earlier position in the buffer is found where it was. -/
theorem locate_keepUpTo (hq : b.Holds q) (hp : b.Holds p) (h : q ≤ p) :
    (b.keepUpTo p rest more).locate q = q :=
  locate_eq_self (hq.keepUpTo hp h)

/-- A position is anchored before a place of a buffer if the buffer holds it, or if it stands for a
place strictly before that one. A position past the end of a row is not anchored before that end:
what is put there moves the end on. -/
def Anchored (b : Buffer) (p q : Position) : Prop := b.Holds q ∨ b.locate q < p

/-- The buffer holds an anchored position, or the position names a row before that of the place. -/
theorem Anchored.holds_or_row_lt (h : b.Anchored p q) (hp : b.Holds p) :
    b.Holds q ∨ q.row < p.row := by
  rcases h with hq | hlt
  · exact .inl hq
  · have hcolumn := hp.2
    have hend := hp.le_endPosition
    unfold endPosition at hend
    unfold locate at hlt
    rw [Position.lt_def] at hlt
    rw [Position.le_def] at hend
    split_ifs at hlt with hrow
    -- In the row of the place, the position would be cut off at its end and so not come before.
    · rcases hlt with hlt | ⟨heq, hlt⟩
      · exact .inr hlt
      · dsimp only at heq hlt
        rw [← heq] at hcolumn
        exact .inl ⟨hrow, by omega⟩
    · dsimp only at hend hlt
      omega

/-- A position that is anchored before the cut is located where the old buffer locates it. -/
theorem Anchored.locate_keepUpTo (h : b.Anchored p q) (hp : b.Holds p) (hle : b.locate q ≤ p) :
    (b.keepUpTo p rest more).locate q = b.locate q := by
  rcases h.holds_or_row_lt hp with hq | hrow
  · rw [locate_eq_self hq] at hle ⊢
    exact Buffer.locate_keepUpTo hq hp hle
  · have hlength : q.row < (b.keepUpTo p rest more).length := by
      rw [length_keepUpTo hp.1]
      omega
    rw [locate, if_pos hlength, line_keepUpTo_of_lt hp.1 hrow, locate,
      if_pos (Nat.lt_trans hrow hp.1)]

/-- What comes before an anchored position is anchored too. -/
theorem Anchored.of_le {q' : Position} (h : b.Anchored p q) (hp : b.locate q ≤ p) (hle : q' ≤ q) :
    b.Anchored p q' := by
  have hmono : b.locate q' ≤ b.locate q := locate_mono b hle
  rcases h with hq | hlt
  · rw [locate_eq_self hq] at hp
    obtain ⟨hrow, hcolumn⟩ := hq
    rw [Position.le_def] at hle hp
    rcases Nat.lt_or_ge q'.row q.row with hbefore | hbefore
    · refine .inr ?_
      rw [locate, if_pos (by omega), Position.lt_def]
      dsimp only
      omega
    · have hsame : q'.row = q.row := by omega
      exact .inl ⟨by omega, by rw [hsame]; omega⟩
  · refine .inr ?_
    simp only [Position.lt_def, Position.le_def] at *
    omega

/-- From a position at or before the cut on, the text is the old one up to the cut, and then what
was put there. -/
theorem after_keepUpTo (hq : b.Holds q) (hp : b.Holds p) (h : q ≤ p) :
    (b.keepUpTo p rest more).after q =
      (b.before p).drop (b.before q).length ++ Text.ofRows (rest :: more) := by
  have hkept : (b.keepUpTo p rest more).Holds q := hq.keepUpTo hp h
  have hcut := before_append_after hkept.1
  rw [before_keepUpTo hp h, ofRows_keepUpTo] at hcut
  have hdrop := congrArg (List.drop (b.before q).length) hcut
  rw [List.drop_left, List.drop_append_of_le_length (length_before_le h hq hp.1)] at hdrop
  exact hdrop

end Kept

end Fettle.Fix.Buffer
