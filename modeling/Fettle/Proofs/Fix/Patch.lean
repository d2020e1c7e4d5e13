import Fettle.Proofs.Fix.Buffer
import Fettle.Proofs.Fix.Replacement
import Fettle.Proofs.Fix.Selection
import Mathlib

/-!
# Patching replaces all selected spans at once

The patcher applies the selected edits one after another to a buffer of lines that changes under
it. Its result is nevertheless the text with all spans replaced at once (`patch_select`): an edit
keeps the buffer up to its own start (`Buffer.apply_keepUpTo`), every later edit ends at or before
that start, and so each adds one more replacement at the front of those already made
(`Buffer.ofRows_foldl_apply`).
-/

namespace Fettle.Fix

namespace Buffer

/-- A buffer is cut into rows if no line of it holds a line feed. -/
def IsCut (b : Buffer) : Prop := ∀ line ∈ b, '\n' ∉ line

/-- No row of a text that has been cut has a line feed. -/
theorem IsCut.not_mem_line {b : Buffer} (hb : b.IsCut) (row : ℕ) : '\n' ∉ b.line row := by
  rcases Nat.lt_or_ge row b.length with hlt | hge
  · rw [line, List.getD_eq_getElem _ _ hlt]
    exact hb _ (List.getElem_mem hlt)
  · rw [line, List.getD_eq_default _ _ hge]
    exact List.not_mem_nil

/-! ## One edit -/

section Apply

variable {b : Buffer} {e : Edit}

/-- Both ends of an edit on one row are located on one row. -/
theorem locate_row_eq (b : Buffer) {p q : Position} (h : p.row = q.row) :
    (b.locate p).row = (b.locate q).row := by
  unfold locate
  rw [h]
  split_ifs <;> rfl

/-- An edit keeps the buffer up to its start. From there on the text is the content and the text
from the end of the edit on. -/
theorem apply_eq_keepUpTo (hb : b ≠ []) (hwf : e.WellFormed)
    (hfree : '\n' ∉ (b.line (b.locate e.start).row).take (b.locate e.start).column) :
    ∃ rest more, b.apply e = b.keepUpTo (b.locate e.start) rest more ∧
      Text.ofRows (rest :: more) = e.content.toList ++ b.after (b.locate e.stop) := by
  have hle : b.locate e.start ≤ b.locate e.stop := locate_mono b hwf
  have hstart : b.Holds (b.locate e.start) := holds_locate hb e.start
  rw [apply, if_pos hwf]
  dsimp only
  split_ifs with hrow
  · -- The line is changed in place.
    have hsame : (b.locate e.start).row = (b.locate e.stop).row := locate_row_eq b hrow
    generalize b.locate e.start = s at *
    generalize b.locate e.stop = t at *
    refine ⟨e.content.toList ++ (b.line t.row).drop t.column, b.drop (t.row + 1), ?_, ?_⟩
    · have hmax : max s.column t.column = t.column := by
        rw [Position.le_def] at hle
        omega
      rw [replaceInLine, List.set_eq_take_append_cons_drop, if_pos hstart.1, hmax, keepUpTo, hsame]
      simp only [List.append_assoc]
    · exact Text.ofRows_append_cons _ _ _
  · -- The spanned lines are joined with the content and cut again.
    generalize b.locate e.start = s at *
    generalize b.locate e.stop = t at *
    obtain ⟨first, others, hcut⟩ := List.exists_cons_of_ne_nil
      (Text.rows_ne_nil (e.content.toList ++ (b.line t.row).drop t.column))
    have hjoin : Text.rows ((b.line s.row).take s.column ++ e.content.toList ++
        (b.line t.row).drop t.column) = ((b.line s.row).take s.column ++ first) :: others := by
      rw [List.append_assoc]
      exact Text.rows_append hfree hcut
    refine ⟨first, others ++ b.drop (t.row + 1), ?_, ?_⟩
    · rw [replaceLines, hjoin, keepUpTo, List.append_assoc, List.cons_append]
    · rw [← List.cons_append, ← hcut, Text.ofRows_rows_append, Text.ofRows_append_cons, after]

end Apply

/-! ## A run of edits -/

section Run

variable {b : Buffer} {p s t : Position} {rest : List Char} {more : Buffer}

/-- An edit that is located at or before the place up to which the buffer is kept. -/
theorem apply_keepUpTo (hcut : b.IsCut) (hp : b.Holds p) {e : Edit} (hwf : e.WellFormed)
    (hs : (b.keepUpTo p rest more).locate e.start = s)
    (ht : (b.keepUpTo p rest more).locate e.stop = t) (htb : b.Holds t) (htp : t ≤ p) :
    ∃ rest' more', (b.keepUpTo p rest more).apply e = b.keepUpTo s rest' more' ∧
      Text.ofRows (rest' :: more') = e.content.toList ++
        ((b.before p).drop (b.before t).length ++ Text.ofRows (rest :: more)) := by
  have hst : s ≤ t := by rw [← hs, ← ht]; exact locate_mono _ hwf
  have hsp : s ≤ p := Position.le_trans hst htp
  have hne : b.keepUpTo p rest more ≠ [] := by simp [keepUpTo]
  -- A line that was changed may hold line feeds, but not before the place of the edit.
  have hfree : '\n' ∉ ((b.keepUpTo p rest more).line s.row).take s.column := by
    rw [take_line_keepUpTo hp hsp]
    exact fun h => hcut.not_mem_line s.row (List.mem_of_mem_take h)
  obtain ⟨rest', more', happly, htext⟩ := apply_eq_keepUpTo hne hwf (by rw [hs]; exact hfree)
  refine ⟨rest', more', ?_, ?_⟩
  · rw [happly, hs, keepUpTo_keepUpTo hp hsp]
  · rw [htext, ht, after_keepUpTo htb hp htp]

/-- An edit that ends at a position that is anchored before the cut is made where the old buffer
locates it. -/
theorem apply_keepUpTo_of_anchored (hne : b ≠ []) (hcut : b.IsCut) {e : Edit} (hwf : e.WellFormed)
    (hle : e.stop ≤ p) (hstop : b.Anchored (b.locate p) e.stop) (rest : List Char) (more : Buffer) :
    ∃ rest' more', (b.keepUpTo (b.locate p) rest more).apply e =
        b.keepUpTo (b.locate e.start) rest' more' ∧
      Text.ofRows (rest' :: more') = e.content.toList ++
        ((b.before (b.locate p)).drop (b.before (b.locate e.stop)).length ++
          Text.ofRows (rest :: more)) := by
  have hp : b.Holds (b.locate p) := holds_locate hne p
  have hstop_le : b.locate e.stop ≤ b.locate p := locate_mono b hle
  have hstart : b.Anchored (b.locate p) e.start := hstop.of_le hstop_le hwf
  exact apply_keepUpTo hcut hp hwf
    (hstart.locate_keepUpTo hp (Position.le_trans (locate_mono b hwf) hstop_le))
    (hstop.locate_keepUpTo hp hstop_le) (holds_locate hne e.stop) hstop_le

/-- The replacement that an edit stands for when the buffer holds both ends of its span. -/
def replacement (b : Buffer) (e : Edit) : Replacement :=
  ⟨(b.before e.start).length, (b.before e.stop).length, e.content.toList⟩

/-- The replacement that an edit stands for wherever it lies: at the places where the buffer
locates it. -/
def located (b : Buffer) (e : Edit) : Replacement :=
  b.replacement ⟨b.locate e.start, b.locate e.stop, e.content⟩

/-- Each of some edits ends at a position that is anchored before the start of the edit listed
before it, and the first one at a position that is anchored before a given one. -/
def AnchoredBelow (b : Buffer) : Position → List Edit → Prop
  | _, [] => True
  | p, e :: es => b.Anchored (b.locate p) e.stop ∧ AnchoredBelow b e.start es

/-- Edits that are clear of each other stand for replacements in order, once they are listed in the
order of the text. -/
theorem inOrder_located (hne : b ≠ []) {es : List Edit} (hclear : ClearBelow p es)
    (hwf : ∀ e ∈ es, e.WellFormed) :
    Replacement.InOrder 0 (es.map b.located).reverse (b.before (b.locate p)).length := by
  induction es generalizing p with
  | nil => exact Nat.zero_le _
  | cons e es ih =>
    have hstop := holds_locate hne e.stop
    rw [List.map_cons, List.reverse_cons]
    apply Replacement.InOrder.concat
    · exact ih hclear.2 fun e' he' => hwf e' (List.mem_cons_of_mem _ he')
    · exact length_before_le (locate_mono b (hwf e List.mem_cons_self)) (holds_locate hne e.start)
        hstop.1
    · exact length_before_le (locate_mono b hclear.1) hstop (holds_locate hne p).1

/-- The text before a position is the beginning of the text of the buffer. -/
theorem take_ofRows (hp : b.Holds p) :
    (Text.ofRows b).take (b.before p).length = b.before p := by
  rw [← before_append_after hp.1, List.take_left]

/-- The text that some edits leave up to a position when each is made where it is located, and a
tail. -/
def settled (b : Buffer) (p : Position) (es : List Edit) (tail : List Char) : List Char :=
  Replacement.stitch (Text.ofRows b) 0 (es.map b.located).reverse (b.before (b.locate p)).length ++
    tail

/-- Where no edit is left, the text up to the position is kept. -/
theorem settled_nil (hne : b ≠ []) (tail : List Char) :
    b.settled p [] tail = b.before (b.locate p) ++ tail := by
  rw [settled, List.map_nil, List.reverse_nil, Replacement.stitch, List.drop_zero,
    take_ofRows (holds_locate hne p)]

/-- The first edit adds to the tail its content and what stands between its end and the position. -/
theorem settled_cons (hne : b ≠ []) (e : Edit) (es : List Edit) (tail : List Char) :
    b.settled p (e :: es) tail = b.settled e.start es (e.content.toList ++
      ((b.before (b.locate p)).drop (b.before (b.locate e.stop)).length ++ tail)) := by
  rw [settled, settled, List.map_cons, List.reverse_cons, Replacement.stitch_concat]
  simp only [located, replacement, take_ofRows (holds_locate hne p), List.append_assoc]

/-- A run of edits, each clear of the one before it and anchored before its start, makes each of
them where it is located. -/
theorem ofRows_foldl_apply (hne : b ≠ []) (hcut : b.IsCut) {es : List Edit}
    (hclear : ClearBelow p es) (hwf : ∀ e ∈ es, e.WellFormed) (hanchored : b.AnchoredBelow p es) :
    Text.ofRows (es.foldl apply (b.keepUpTo (b.locate p) rest more)) =
      b.settled p es (Text.ofRows (rest :: more)) := by
  -- The induction is on the edits still to be applied; the place of the last one moves on.
  induction es generalizing p rest more with
  | nil => rw [List.foldl_nil, ofRows_keepUpTo, settled_nil hne]
  | cons e es ih =>
    obtain ⟨hle, hrest⟩ := hclear
    obtain ⟨hstop, hanchored⟩ := hanchored
    obtain ⟨rest', more', happly, htext⟩ := apply_keepUpTo_of_anchored hne hcut
      (hwf e List.mem_cons_self) hle hstop rest more
    rw [List.foldl_cons, happly, ih hrest (fun e' he' => hwf e' (List.mem_cons_of_mem _ he'))
      hanchored, htext, settled_cons hne]

/-- The text of a buffer is the text before its end. -/
theorem before_endPosition (hne : b ≠ []) : b.before b.endPosition = Text.ofRows b := by
  have h := ofRows_keepUpTo b b.endPosition [] []
  rw [keepUpTo_endPosition hne, Text.ofRows_singleton, List.append_nil] at h
  exact h.symm

/-- The first edit of a run meets the whole buffer, so it may lie anywhere. -/
theorem apply_first (hne : b ≠ []) (hcut : b.IsCut) {e : Edit} (hwf : e.WellFormed) :
    ∃ rest more, b.apply e = b.keepUpTo (b.locate e.start) rest more ∧
      Text.ofRows (rest :: more) = e.content.toList ++
        (Text.ofRows b).drop (b.before (b.locate e.stop)).length := by
  have hstop : b.Holds (b.locate e.stop) := holds_locate hne e.stop
  have hwhole := keepUpTo_endPosition hne
  have hlocate p : (b.keepUpTo b.endPosition [] []).locate p = b.locate p := by rw [hwhole]
  obtain ⟨rest, more, happly, htext⟩ := apply_keepUpTo hcut (holds_endPosition hne) hwf
    (hlocate _) (hlocate _) hstop hstop.le_endPosition
  -- The whole buffer is kept up to its end.
  rw [hwhole] at happly
  rw [before_endPosition hne, Text.ofRows_singleton, List.append_nil] at htext
  exact ⟨rest, more, happly, htext⟩

/-- What the first edit of a run leaves is settled with the other edits. -/
theorem settled_first (e : Edit) (es : List Edit) :
    b.settled e.start es
        (e.content.toList ++ (Text.ofRows b).drop (b.before (b.locate e.stop)).length) =
      Replacement.stitch (Text.ofRows b) 0 ((e :: es).map b.located).reverse
        (Text.ofRows b).length := by
  rw [settled, List.map_cons, List.reverse_cons, Replacement.stitch_concat, List.take_length]
  simp only [located, replacement, List.append_assoc]

/-- The replacements that a run of edits stands for are in order. -/
theorem inOrder_located_cons (hne : b ≠ []) {e : Edit} {es : List Edit}
    (hwf : ∀ e' ∈ e :: es, e'.WellFormed) (hclear : ClearBelow e.start es) :
    Replacement.InOrder 0 ((e :: es).map b.located).reverse (Text.ofRows b).length := by
  have hstop : b.Holds (b.locate e.stop) := holds_locate hne e.stop
  rw [List.map_cons, List.reverse_cons]
  apply Replacement.InOrder.concat
  · exact inOrder_located hne hclear fun e' he' => hwf e' (List.mem_cons_of_mem _ he')
  · exact length_before_le (locate_mono b (hwf e List.mem_cons_self)) (holds_locate hne e.start)
      hstop.1
  · rw [← before_endPosition hne]
    exact length_before_le hstop.le_endPosition hstop (holds_endPosition hne).1

end Run

end Buffer

/-! ## A text and its rows -/

/-- The rows of a text are cut. -/
theorem isCut_rows (text : List Char) : Buffer.IsCut (Text.rows text) := fun _ hline =>
  Text.not_mem_of_mem_rows hline

/-- A text's rows hold the positions inside it. -/
theorem holds_rows_iff (text : List Char) (p : Position) :
    Buffer.Holds (Text.rows text) p ↔ Text.Inside text p := by
  constructor
  · rintro ⟨hrow, hcolumn⟩
    rw [Buffer.line, List.getD_eq_getElem _ _ hrow] at hcolumn
    exact ⟨_, List.getElem?_eq_getElem hrow, hcolumn⟩
  · rintro ⟨row, hrow, hcolumn⟩
    obtain ⟨hlt, rfl⟩ := List.getElem?_eq_some_iff.mp hrow
    refine ⟨hlt, ?_⟩
    rwa [Buffer.line, List.getD_eq_getElem _ _ hlt]

/-- The offset of a position is the length of the text before the place where it is located. -/
theorem offset_eq_length_before (text : List Char) (p : Position) :
    Text.offset text p =
      (Buffer.before (Text.rows text) (Buffer.locate (Text.rows text) p)).length := by
  unfold Text.offset
  rcases Nat.lt_or_ge p.row (Text.rows text).length with hlt | hge
  · rw [List.getElem?_eq_getElem hlt, Buffer.length_before, Buffer.locate, if_pos hlt]
    dsimp only [Buffer.line]
    rw [List.getD_eq_getElem _ _ hlt]
    omega
  · have hlocate : Buffer.locate (Text.rows text) p = Buffer.endPosition (Text.rows text) := by
      rw [Buffer.locate, if_neg (Nat.not_lt.mpr hge), Buffer.endPosition]
    rw [List.getElem?_eq_none hge, hlocate, Buffer.before_endPosition (Text.rows_ne_nil text),
      Text.ofRows_rows]

/-- An edit stands for the same replacement in a text and where the rows of the text locate it. -/
theorem ofEdit_eq_located (text : List Char) (e : Edit) :
    Replacement.ofEdit text e = Buffer.located (Text.rows text) e := by
  rw [Replacement.ofEdit, offset_eq_length_before, offset_eq_length_before]
  rfl

/-! ## Patching with a selection -/

/-- Edits that are clear of each other stand for replacements of a text that are in order. -/
theorem inOrder_ofEdit (text : List Char) {e : Edit} {es : List Edit}
    (hwf : ∀ e' ∈ e :: es, e'.WellFormed) (hclear : ClearBelow e.start es) :
    Replacement.InOrder 0 ((e :: es).map (Replacement.ofEdit text)).reverse text.length := by
  have h := Buffer.inOrder_located_cons (Text.rows_ne_nil text) hwf hclear
  rwa [Text.ofRows_rows, ← List.map_congr_left fun e' _ => ofEdit_eq_located text e'] at h

/-- What the first edit of a run leaves is settled as all replacements at once. -/
theorem settled_eq_atOnce (text : List Char) {e : Edit} {es : List Edit}
    (hwf : ∀ e' ∈ e :: es, e'.WellFormed) (hclear : ClearBelow e.start es) {tail : List Char}
    (htail : tail = e.content.toList ++ (Text.ofRows (Text.rows text)).drop
      (Buffer.before (Text.rows text) (Buffer.locate (Text.rows text) e.stop)).length) :
    Buffer.settled (Text.rows text) e.start es tail =
      Replacement.atOnce text ((e :: es).map (Replacement.ofEdit text)).reverse := by
  rw [htail, Buffer.settled_first, Text.ofRows_rows,
    ← List.map_congr_left fun e' _ => ofEdit_eq_located text e',
    Replacement.stitch_eq_atOnce _ (inOrder_ofEdit _ hwf hclear)]

/-- Patching a text with edits that are clear of each other replaces all their spans at once, if
each ends at a position that is anchored before the start of the edit listed before it. -/
theorem patch_cons (text : String) {e : Edit} {es : List Edit}
    (hwf : ∀ e' ∈ e :: es, e'.WellFormed) (hclear : ClearBelow e.start es)
    (hanchored : Buffer.AnchoredBelow (Text.rows text.toList) e.start es) :
    patch text (e :: es) = String.ofList (Replacement.atOnce text.toList
      ((e :: es).map (Replacement.ofEdit text.toList)).reverse) := by
  have hne := Text.rows_ne_nil text.toList
  have hcut := isCut_rows text.toList
  obtain ⟨rest, more, happly, htext⟩ := Buffer.apply_first hne hcut (hwf e List.mem_cons_self)
  have hes : ∀ e' ∈ es, e'.WellFormed := fun e' he' => hwf e' (List.mem_cons_of_mem _ he')
  rw [patch, List.foldl_cons, happly, Buffer.ofRows_foldl_apply hne hcut hclear hes hanchored,
    settled_eq_atOnce _ hwf hclear htext]

/-- Without edits, nothing is replaced. -/
theorem patch_nil (text : String) :
    patch text [] = String.ofList (Replacement.atOnce text.toList []) := by
  rw [← Replacement.stitch_eq_atOnce _ (Nat.zero_le _)]
  simp [patch, Replacement.stitch, Text.ofRows_rows]

/-- Edits that end inside a text are anchored. -/
theorem anchoredBelow_of_inside {text : List Char} (p : Position) {es : List Edit}
    (h : ∀ e ∈ es, Text.Inside text e.stop) : Buffer.AnchoredBelow (Text.rows text) p es := by
  induction es generalizing p with
  | nil => trivial
  | cons e es ih =>
    exact ⟨.inl ((holds_rows_iff _ _).mpr (h e List.mem_cons_self)),
      ih e.start fun e' he' => h e' (List.mem_cons_of_mem _ he')⟩

/-- Patching a text with the edits that are selected from well-formed ones replaces all their spans
at once, if all edits but the first selected one, which is the last in the text, lie inside the
text. The contents appear in the order of the text, which is the reverse of the order of the
selection; insertions at one place are selected as they are reported, so they appear in the reverse
of that order. -/
theorem patch_select (text : String) (edits : List Edit) (hwf : ∀ e ∈ edits, e.WellFormed)
    (hinside : ∀ e ∈ (select edits).tail,
      Text.Inside text.toList e.start ∧ Text.Inside text.toList e.stop) :
    let replacements := ((select edits).map (Replacement.ofEdit text.toList)).reverse
    Replacement.InOrder 0 replacements text.toList.length ∧
      patch text (select edits) =
        String.ofList (Replacement.atOnce text.toList replacements) ∧
      ∀ p, ((select edits).filter fun e => e.start = p ∧ e.stop = p).Sublist edits := by
  cases hselect : select edits with
  | nil => exact ⟨Nat.zero_le _, patch_nil text, fun p => List.nil_sublist _⟩
  | cons e es =>
    have hwf' : ∀ e' ∈ e :: es, e'.WellFormed := fun e' he' =>
      hwf e' (mem_of_mem_select (hselect ▸ he'))
    rw [hselect, List.tail_cons] at hinside
    have hclear := clearBelow_of_select_eq_cons hselect
    -- The later edits lie inside the text, where nothing has to be clamped.
    have hpatch := patch_cons text hwf' hclear
      (anchoredBelow_of_inside _ fun e' he' => (hinside e' he').2)
    exact ⟨inOrder_ofEdit _ hwf' hclear, hpatch, hselect ▸ filter_select_sublist edits⟩

/-- Edits of a text of three rows and a final line feed: two insertions at one place, a replacement
over three rows that ends before it, another edit at its start, one whose content holds a line
feed, and one that reaches past the end of the text. -/
def mixedEdits : List Edit :=
  [⟨⟨0, 1⟩, ⟨0, 3⟩, "A\nB"⟩, ⟨⟨0, 5⟩, ⟨2, 2⟩, "--\n-"⟩, .insertion ⟨2, 3⟩ "x",
    .insertion ⟨2, 3⟩ "y", ⟨⟨3, 0⟩, ⟨9, 9⟩, "END"⟩, .insertion ⟨0, 5⟩ "I"]

/-- All of them are made at once where they belong, although the first one reaches past the end. -/
theorem patch_select_mixedEdits :
    (∀ e ∈ mixedEdits, e.WellFormed) ∧
      (∀ e ∈ (select mixedEdits).tail, Text.Inside "héllo\n\nwörld\n".toList e.start ∧
        Text.Inside "héllo\n\nwörld\n".toList e.stop) ∧
      patch "héllo\n\nwörld\n" (select mixedEdits) = "hA\nBloI--\n-ryxld\nEND" := by
  have hwf : ∀ e ∈ mixedEdits, e.WellFormed := by decide
  have hselect : select mixedEdits =
      [⟨⟨3, 0⟩, ⟨9, 9⟩, "END"⟩, .insertion ⟨2, 3⟩ "x", .insertion ⟨2, 3⟩ "y",
        ⟨⟨0, 5⟩, ⟨2, 2⟩, "--\n-"⟩, .insertion ⟨0, 5⟩ "I", ⟨⟨0, 1⟩, ⟨0, 3⟩, "A\nB"⟩] := by cbv
  have hinside : ∀ e ∈ (select mixedEdits).tail, Text.Inside "héllo\n\nwörld\n".toList e.start ∧
      Text.Inside "héllo\n\nwörld\n".toList e.stop := by
    rw [hselect]
    decide
  refine ⟨hwf, hinside, (patch_select _ mixedEdits hwf hinside).2.1.trans ?_⟩
  rw [hselect]
  cbv

end Fettle.Fix
