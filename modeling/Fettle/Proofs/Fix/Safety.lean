import Fettle.Proofs.Fix.Patch

/-!
# Patching never looks where nothing is

A text is stored as bytes, and a line may be cut only between two of its characters; a row may be
looked up, changed or replaced only if the buffer has it. `Buffer.applyBytes?` applies an edit in
this way, and has no result if it would have to cut or to look anywhere else. The buffer is never
empty (`Buffer.apply_ne_nil`) and keeps the order of positions (`Buffer.locate_mono`), and so it
always has one, the result of the patcher (`Buffer.applyBytes?_eq`): whatever the edits are, in
whatever order they come, and however far they reach.
-/

namespace Fettle.Fix

/-! ## Bytes of a line -/

/-- The number of bytes that some characters take up. -/
def byteCount (cs : List Char) : ℕ := (String.ofList cs).utf8ByteSize

/-- The byte at which a column of a line begins; past the end of the line it is that end. -/
def byteOffset (line : List Char) (column : ℕ) : ℕ := byteCount (line.take column)

/-- Cut a line at a byte. A byte past the end of the line, or inside of a character, is no place
to cut. -/
def cutAtByte? : List Char → ℕ → Option (List Char × List Char)
  | cs, 0 => some ([], cs)
  | [], _ + 1 => none
  | c :: cs, n + 1 =>
    if c.utf8Size ≤ n + 1 then
      (cutAtByte? cs (n + 1 - c.utf8Size)).map fun (front, back) => (c :: front, back)
    else none

/-- No characters have no bytes. -/
@[simp] theorem byteCount_nil : byteCount [] = 0 := rfl

/-- The bytes of two texts add up, -/
theorem byteCount_append (cs ds : List Char) :
    byteCount (cs ++ ds) = byteCount cs + byteCount ds := by
  rw [byteCount, String.ofList_append, String.utf8ByteSize_append, byteCount, byteCount]

/-- and so do those of a character and the text behind it. -/
theorem byteCount_cons (c : Char) (cs : List Char) :
    byteCount (c :: cs) = c.utf8Size + byteCount cs := by
  rw [← List.singleton_append, byteCount_append]
  congr 1
  simp [byteCount]

/-- A line can be cut behind any of its fronts. -/
theorem cutAtByte?_byteCount (front back : List Char) :
    cutAtByte? (front ++ back) (byteCount front) = some (front, back) := by
  induction front with
  | nil => simp [cutAtByte?]
  | cons c front ih =>
    have hpos : 0 < c.utf8Size := c.utf8Size_pos
    obtain ⟨n, hn⟩ : ∃ n, byteCount (c :: front) = n + 1 :=
      Nat.exists_eq_add_of_le' (by rw [byteCount_cons]; omega)
    rw [hn, List.cons_append, cutAtByte?, ← hn, byteCount_cons, if_pos (Nat.le_add_right _ _),
      Nat.add_sub_cancel_left, ih]
    rfl

/-- A line can be cut at the byte where a column begins. -/
theorem cutAtByte?_byteOffset (line : List Char) (column : ℕ) :
    cutAtByte? line (byteOffset line column) = some (line.take column, line.drop column) := by
  have h := cutAtByte?_byteCount (line.take column) (line.drop column)
  rwa [List.take_append_drop] at h

/-- Such a byte is a valid position of the line: it stands between two characters, or at one of its
ends. -/
theorem isValid_byteOffset (line : List Char) (column : ℕ) :
    (⟨byteOffset line column⟩ : String.Pos.Raw).IsValid (String.ofList line) :=
  String.Pos.Raw.isValid_ofList.mpr ⟨column, rfl⟩

/-- A later column begins at a later byte. -/
theorem byteOffset_mono (line : List Char) {i j : ℕ} (h : i ≤ j) :
    byteOffset line i ≤ byteOffset line j := by
  have htake : line.take j = line.take i ++ (line.take j).drop i := by
    conv_lhs => rw [← List.take_append_drop i (line.take j), List.take_take, Nat.min_eq_left h]
  calc byteCount (line.take i)
      ≤ byteCount (line.take i) + byteCount ((line.take j).drop i) := Nat.le_add_right _ _
    _ = byteCount (line.take i ++ (line.take j).drop i) := (byteCount_append _ _).symm
    _ = byteCount (line.take j) := by rw [← htake]

namespace Buffer

/-! ## Applying an edit in bytes -/

/-- The row and the byte of a position, if the buffer has the row. -/
def locateByte? (b : Buffer) (p : Position) : Option (ℕ × ℕ) :=
  let last := b.length - 1
  if last < p.row then some (last, byteCount (b.line last))
  else b[p.row]?.map fun line => (p.row, byteOffset line p.column)

/-- Replace the bytes of a line from one byte up to another one, if it can be cut at both and they
are in order. -/
def replaceBytes? (line : List Char) (start stop : ℕ) (content : List Char) : Option (List Char) := do
  guard (start ≤ stop)
  let (front, _) ← cutAtByte? line start
  let (_, back) ← cutAtByte? line stop
  return front ++ content ++ back

/-- Replace the lines from one row to another one, if the buffer has them and they are in order. -/
def spliceRows? (b : Buffer) (start stop : ℕ) (lines : List (List Char)) : Option Buffer := do
  guard (start ≤ stop ∧ stop < b.length)
  return b.take start ++ lines ++ b.drop (stop + 1)

/-- Apply one edit to a buffer of lines that are stored as bytes. There is no result if a row that
the buffer does not have would be looked up, or a line cut where no character begins or ends. -/
def applyBytes? (b : Buffer) (e : Edit) : Option Buffer := do
  if e.WellFormed then
    let (startRow, startByte) ← b.locateByte? e.start
    let (stopRow, stopByte) ← b.locateByte? e.stop
    let first ← b[startRow]?
    if e.OnOneRow then
      let line ← replaceBytes? first startByte (max stopByte startByte) e.content.toList
      return b.set startRow line
    else
      let last ← b[stopRow]?
      let (front, _) ← cutAtByte? first startByte
      let (_, back) ← cutAtByte? last stopByte
      b.spliceRows? startRow stopRow (Text.rows (front ++ e.content.toList ++ back))
  else return b

section

variable {b : Buffer}

/-- The byte at which a buffer locates a position, in its line. -/
def byteOf (b : Buffer) (p : Position) : ℕ :=
  byteOffset (b.line (b.locate p).row) (b.locate p).column

/-- A row that is there is found. -/
theorem getElem?_of_lt {row : ℕ} (h : row < b.length) : b[row]? = some (b.line row) := by
  rw [line, List.getD_eq_getElem _ _ h, List.getElem?_eq_getElem h]

/-- The row of a position is always found. -/
theorem locateByte?_eq (hb : b ≠ []) (p : Position) :
    b.locateByte? p = some ((b.locate p).row, b.byteOf p) := by
  have hlength : 0 < b.length := List.length_pos_iff.mpr hb
  unfold locateByte? byteOf locate
  dsimp only
  by_cases hrow : p.row < b.length
  · rw [if_neg (by omega), if_pos hrow, getElem?_of_lt hrow]
    -- A column past the end of the line begins at its end.
    rw [Option.map_some, byteOffset, byteOffset, ← List.take_take, List.take_length]
  · rw [if_pos (by omega), if_neg hrow, byteOffset, List.take_length]

/-- Bytes of a line may be replaced between two columns that are in order. -/
theorem replaceBytes?_eq (line : List Char) {i j : ℕ} (h : i ≤ j) (content : List Char) :
    replaceBytes? line (byteOffset line i) (max (byteOffset line j) (byteOffset line i)) content =
      some (line.take i ++ content ++ line.drop j) := by
  have hle : byteOffset line i ≤ byteOffset line j := byteOffset_mono line h
  rw [replaceBytes?, Nat.max_eq_left hle, guard, if_pos hle, cutAtByte?_byteOffset,
    cutAtByte?_byteOffset]
  rfl

/-- Rows that the buffer has may be replaced if they are in order. -/
theorem spliceRows?_eq {start stop : ℕ} (hle : start ≤ stop) (hstop : stop < b.length)
    (lines : List (List Char)) :
    b.spliceRows? start stop lines = some (b.take start ++ lines ++ b.drop (stop + 1)) := by
  rw [spliceRows?, guard, if_pos ⟨hle, hstop⟩]
  rfl

/-- An edit whose span does not run backwards is located in order. -/
theorem locate_row_le {e : Edit} (hwf : e.WellFormed) :
    (b.locate e.start).row ≤ (b.locate e.stop).row := by
  have hle := locate_mono b hwf
  rw [Position.le_def] at hle
  omega

/-- An edit on one row is located on one row, with its columns in order. -/
theorem locate_column_le {e : Edit} (hwf : e.WellFormed) (hrow : e.OnOneRow) :
    (b.locate e.start).column ≤ (b.locate e.stop).column := by
  have hsame := locate_row_eq b hrow
  have hle := locate_mono b hwf
  rw [Position.le_def] at hle
  omega

/-- A buffer that has a row is never left without one. -/
theorem apply_ne_nil (hb : b ≠ []) (e : Edit) : b.apply e ≠ [] := by
  unfold apply
  dsimp only
  split_ifs
  · rw [replaceInLine, Ne, ← List.length_eq_zero_iff, List.length_set, List.length_eq_zero_iff]
    exact hb
  · -- The lines that are put in are the rows of a text, and a text has a row.
    exact List.append_ne_nil_of_left_ne_nil
      (List.append_ne_nil_of_right_ne_nil _ (Text.rows_ne_nil _)) _
  · exact hb

/-- To apply an edit in bytes always leads to the buffer that the patcher leaves. -/
theorem applyBytes?_eq (hb : b ≠ []) (e : Edit) : b.applyBytes? e = some (b.apply e) := by
  have hstart := (holds_locate hb e.start).1
  have hstop := (holds_locate hb e.stop).1
  unfold applyBytes? apply
  dsimp only
  split_ifs with hwf hrow
  · rw [locateByte?_eq hb, locateByte?_eq hb]
    -- Both ends lie in one line, which is cut at both of them.
    have hsame := locate_row_eq b hrow
    have hcolumn := locate_column_le (b := b) hwf hrow
    simp only [Option.bind_eq_bind, Option.bind_some, getElem?_of_lt hstart, byteOf, ← hsame,
      replaceBytes?_eq _ hcolumn, replaceInLine, Nat.max_eq_right hcolumn, Option.pure_def]
  · rw [locateByte?_eq hb, locateByte?_eq hb]
    -- Each end lies in its own line, which is cut there; the rows between them are replaced.
    simp only [Option.bind_eq_bind, Option.bind_some, getElem?_of_lt hstart, getElem?_of_lt hstop,
      byteOf, cutAtByte?_byteOffset, spliceRows?_eq (locate_row_le hwf) hstop, replaceLines]
  · rfl

/-- Everything that an edit meets in a buffer is in order. -/
structure SafeFor (b : Buffer) (e : Edit) : Prop where
  /-- The buffer has a line. -/
  nonempty : b ≠ []
  /-- The row where the edit begins is inside the buffer. -/
  startRow : (b.locate e.start).row < b.length
  /-- The row where the edit ends is inside the buffer. -/
  stopRow : (b.locate e.stop).row < b.length
  /-- The edit begins between two characters of its line, or at one of the line's ends. -/
  startByte : (⟨b.byteOf e.start⟩ : String.Pos.Raw).IsValid
    (String.ofList (b.line (b.locate e.start).row))
  /-- The edit ends between two characters of its line, or at one of the line's ends. -/
  stopByte : (⟨b.byteOf e.stop⟩ : String.Pos.Raw).IsValid
    (String.ofList (b.line (b.locate e.stop).row))
  /-- An edit on one row begins and ends in one line, and does not end before it begins. -/
  onOneRow : e.WellFormed → e.OnOneRow →
    (b.locate e.start).row = (b.locate e.stop).row ∧ b.byteOf e.start ≤ b.byteOf e.stop
  /-- An edit over more rows does not end in a row before the one where it begins. -/
  onMoreRows : e.WellFormed → ¬ e.OnOneRow → (b.locate e.start).row ≤ (b.locate e.stop).row

/-- Applying an edit to a buffer with rows reaches for nothing that is not there. -/
theorem safeFor (hb : b ≠ []) (e : Edit) : b.SafeFor e where
  nonempty := hb
  startRow := (holds_locate hb e.start).1
  stopRow := (holds_locate hb e.stop).1
  startByte := isValid_byteOffset _ _
  stopByte := isValid_byteOffset _ _
  onOneRow hwf hrow := by
    have hsame := locate_row_eq b hrow
    refine ⟨hsame, ?_⟩
    rw [byteOf, byteOf, hsame]
    exact byteOffset_mono _ (locate_column_le hwf hrow)
  onMoreRows hwf _ := locate_row_le hwf

/-! ## Runs of edits -/

/-- Every edit of a run is safe for the buffer that the edits before it leave. -/
def SafeRun : Buffer → List Edit → Prop
  | b, [] => b ≠ []
  | b, e :: es => b.SafeFor e ∧ SafeRun (b.apply e) es

/-- Nor does applying edits one after the other. -/
theorem safeRun (hb : b ≠ []) (es : List Edit) : b.SafeRun es := by
  induction es generalizing b with
  | nil => exact hb
  | cons e es ih => exact ⟨safeFor hb e, ih (apply_ne_nil hb e)⟩

/-- A run of edits in bytes leads to the buffer that the patcher leaves. -/
theorem foldlM_applyBytes?_eq (hb : b ≠ []) (es : List Edit) :
    es.foldlM applyBytes? b = some (es.foldl apply b) := by
  induction es generalizing b with
  | nil => rfl
  | cons e es ih =>
    rw [List.foldlM_cons, applyBytes?_eq hb, Option.bind_eq_bind, Option.bind_some,
      ih (apply_ne_nil hb e), List.foldl_cons]

/-- An edit that is not well formed changes nothing. -/
theorem apply_of_not_wellFormed {e : Edit} (h : ¬ e.WellFormed) : b.apply e = b := if_neg h

/-- Edits whose spans run backwards may be left out of a run. -/
theorem foldl_apply_filter (es : List Edit) :
    (es.filter fun e => e.WellFormed).foldl apply b = es.foldl apply b := by
  induction es generalizing b with
  | nil => rfl
  | cons e es ih =>
    rw [List.foldl_cons]
    by_cases h : e.WellFormed
    · rw [List.filter_cons_of_pos (by simpa using h), List.foldl_cons, ih]
    · rw [List.filter_cons_of_neg (by simpa using h), ih, apply_of_not_wellFormed h]

end

end Buffer

/-- Apply edits to a text whose lines are stored as bytes, if every one of them has a result. -/
def patchBytes? (text : String) (edits : List Edit) : Option String := do
  let b ← edits.foldlM Buffer.applyBytes? (Text.rows text.toList)
  return String.ofList (Text.ofRows b)

/-- Patching is safe for every list of edits, in any order, overlapping, repeated, or out of the
text. Every edit finds a buffer that has a line, rows that are in it, and bytes between characters,
in order; so the patcher that looks at nothing else always has a result, and it is the patched text.
Edits whose spans run backwards have no effect at all. -/
theorem patch_safe (text : String) (edits : List Edit) :
    Buffer.SafeRun (Text.rows text.toList) edits ∧
      patchBytes? text edits = some (patch text edits) ∧
      patch text edits = patch text (edits.filter fun e => e.WellFormed) := by
  have hne := Text.rows_ne_nil text.toList
  refine ⟨Buffer.safeRun hne edits, ?_, ?_⟩
  · rw [patchBytes?, Buffer.foldlM_applyBytes?_eq hne]
    rfl
  · rw [patch, patch, Buffer.foldl_apply_filter]

/-- An edit of characters of two and four bytes, one that begins in a line feed's row and ends far
past the text, and one that runs backwards. -/
example : patchBytes? "é😀\nb" [⟨⟨0, 1⟩, ⟨0, 9⟩, "x\ny"⟩,
    ⟨⟨0, 3⟩, ⟨18446744073709551615, 0⟩, "!"⟩, ⟨⟨1, 0⟩, ⟨0, 0⟩, "?"⟩] = some "éx\n!" := by
  cbv

end Fettle.Fix
