import Fettle.Proofs.Diff.Mentions

/-!
# The rows and the header of a hunk

A hunk is read as the numbers of its header and its rows: lines that are kept, deleted or inserted.
The rows of a hunk are the lines that its script leads through (`Leads.rows`). The header is made
from the first and the last operation, and these know their places unless they are insertions
without a deletion, or deletions without an insertion. As kept runs and changes take turns, the rows
tell when that is so (`Shown`), and elsewhere the header is right (`Stands.placed`).
-/

namespace Fettle.Diff

/-- A line of a hunk. -/
inductive Row where
  /-- A line of both texts. -/
  | kept (line : String)
  /-- A line of the old text. -/
  | deleted (line : String)
  /-- A line of the new text. -/
  | inserted (line : String)
deriving DecidableEq, Repr

namespace Row

/-- The line with its sign, and with the hint if it has no line ending. -/
def text : Row → String
  | kept line => lineText " " line
  | deleted line => lineText "-" line
  | inserted line => lineText "+" line

/-- The line without its sign. -/
def line : Row → String
  | kept line | deleted line | inserted line => line

/-- The line as a line of the old text. -/
def old : Row → Option String
  | kept line | deleted line => some line
  | inserted _ => none

/-- The line as a line of the new text. -/
def new : Row → Option String
  | kept line | inserted line => some line
  | deleted _ => none

/-- The line is a line of one of the texts only. -/
def isChange : Row → Bool
  | kept _ => false
  | deleted _ | inserted _ => true

/-- A change is no line of the old text if it is one of the new text. -/
theorem old_eq_none {row : Row} {line : String} (hchange : row.isChange)
    (hnew : row.new = some line) : row.old = none := by
  cases row with
  | kept => exact absurd hchange Bool.false_ne_true
  | deleted => exact absurd hnew (Option.some_ne_none line).symm
  | inserted => rfl

/-- A change is no line of the new text if it is one of the old text. -/
theorem new_eq_none {row : Row} {line : String} (hchange : row.isChange)
    (hold : row.old = some line) : row.new = none := by
  cases row with
  | kept => exact absurd hchange Bool.false_ne_true
  | deleted => rfl
  | inserted => exact absurd hold (Option.some_ne_none line).symm

end Row

/-- A hunk as it is printed: the numbers of its header, and its lines. First lines are counted from
zero. -/
structure Hunk where
  /-- The first old line, by the header. -/
  oldStart : ℕ
  /-- The number of old lines, by the header. -/
  oldLength : ℕ
  /-- The first new line, by the header. -/
  newStart : ℕ
  /-- The number of new lines, by the header. -/
  newLength : ℕ
  /-- The lines. -/
  rows : List Row
deriving DecidableEq, Repr

namespace Hunk

variable (h : Hunk)

/-- The lines of the old text: those that are kept or deleted. -/
def old : List String := h.rows.filterMap Row.old

/-- The lines of the new text: those that are kept or inserted. -/
def new : List String := h.rows.filterMap Row.new

/-- The change that the hunk begins with; it is empty if the hunk begins with a kept line. -/
def opening : List Row := h.rows.takeWhile Row.isChange

/-- The change that the hunk ends with, its last line first. -/
def closing : List Row := h.rows.reverse.takeWhile Row.isChange

/-- The header. -/
def header : String :=
  s!"@@ -{sideText h.oldStart (h.oldStart + h.oldLength)} +{sideText h.newStart (h.newStart + h.newLength)} @@\n"

/-- The header and the lines. -/
def text : String := h.header ++ String.join (h.rows.map Row.text)

end Hunk

/-- At one end of a hunk, its lines show where they stand on one side: there is a kept line, or a
change with lines of that side. -/
def Shown (side : Row → Option String) (change : List Row) : Prop :=
  change = [] ∨ change.filterMap side ≠ []

/-- The header of a hunk is right about the lines that stand at a pair of places, where the ends of
the hunk show it; if it is `sure`, it is right anyway. -/
structure Hunk.Placed (sure : Prop) (h : Hunk) (x y : ℕ) : Prop where
  /-- The first old line. -/
  oldStart : sure ∨ Shown Row.old h.opening → h.oldStart = x
  /-- The number of old lines. -/
  oldLength : sure ∨ Shown Row.old h.opening ∧ Shown Row.old h.closing →
    h.oldLength = h.old.length
  /-- The first new line. -/
  newStart : sure ∨ Shown Row.new h.opening → h.newStart = y
  /-- The number of new lines. -/
  newLength : sure ∨ Shown Row.new h.opening ∧ Shown Row.new h.closing →
    h.newLength = h.new.length

/-- A header that is right anyway under a condition is so under a stronger one. -/
theorem Hunk.Placed.mono {sure sure' : Prop} {h : Hunk} {x y : ℕ} (hplaced : h.Placed sure x y)
    (hsure : sure' → sure) : h.Placed sure' x y := by
  obtain ⟨hold, holdLength, hnew, hnewLength⟩ := hplaced
  exact ⟨fun hs => hold (hs.imp_left hsure), fun hs => holdLength (hs.imp_left hsure),
    fun hs => hnew (hs.imp_left hsure), fun hs => hnewLength (hs.imp_left hsure)⟩

section

variable {kinds : Kind → Prop} {old new : Array String} {i j i' j' n : ℕ} {op : Op} {ops : List Op}

/-! ## The lines of a hunk -/

variable (old new) in
/-- The lines of an operation. -/
def Op.rows (op : Op) : List Row :=
  let oldLines := (old.toList.drop op.oldStart).take op.oldLength
  let newLines := (new.toList.drop op.newStart).take op.newLength
  match op.kind with
  | .equal => oldLines.map .kept
  | _ => oldLines.map .deleted ++ newLines.map .inserted

variable (old new) in
/-- The hunk that is printed for a piece of a script. -/
def Hunk.ofOps (ops : List Op) : Hunk where
  oldStart := (ops.head?.map Op.oldStart).getD 0
  oldLength := (ops.getLast?.map Op.oldStop).getD 0 - (ops.head?.map Op.oldStart).getD 0
  newStart := (ops.head?.map Op.newStart).getD 0
  newLength := (ops.getLast?.map Op.newStop).getD 0 - (ops.head?.map Op.newStart).getD 0
  rows := ops.flatMap (Op.rows old new)

/-- An operation is printed row by row. -/
theorem opText_eq (op : Op) : opText old new op = String.join ((op.rows old new).map Row.text) := by
  unfold opText Op.rows
  cases op.kind <;> simp [Row.text, Function.comp_def, List.map_append, List.map_map]

/-- One side of a header depends on the first line and the number of lines. -/
theorem sideText_eq (start stop : ℕ) :
    sideText start (start + (stop - start)) = sideText start stop := by
  unfold sideText
  rw [Nat.add_sub_cancel_left]

/-- A piece of a script is printed as a hunk. -/
theorem hunkText_eq (hne : ops ≠ []) : hunkText old new ops = (Hunk.ofOps old new ops).text := by
  obtain ⟨first, hfirst⟩ : ∃ first, ops.head? = some first :=
    ⟨_, List.head?_eq_some_head hne⟩
  obtain ⟨last, hlast⟩ : ∃ last, ops.getLast? = some last :=
    ⟨_, List.getLast?_eq_some_getLast hne⟩
  have hjoin : ∀ ops : List Op, String.join (ops.map (opText old new)) =
      String.join ((ops.flatMap (Op.rows old new)).map Row.text) := by
    intro ops
    induction ops with
    | nil => rfl
    | cons op ops ih =>
      rw [List.map_cons, String.join_cons, ih, opText_eq, List.flatMap_cons, List.map_append,
        String.join_append]
  simp only [hunkText, Hunk.text, Hunk.header, headerText, Hunk.ofOps, hfirst, hlast,
    Option.map_some, Option.getD_some, sideText_eq, hjoin]

/-- The old rows of an operation are its old lines. -/
theorem Op.filterMap_old_rows (op : Op) :
    (op.rows old new).filterMap Row.old = (old.toList.drop op.oldStart).take op.oldLength := by
  dsimp only [Op.rows]
  generalize (old.toList.drop op.oldStart).take op.oldLength = oldLines
  generalize (new.toList.drop op.newStart).take op.newLength = newLines
  cases op.kind <;> simp [Row.old, Function.comp_def, List.filterMap_append, List.filterMap_map]

/-- The new lines of an operation, or the old ones if it keeps them. -/
theorem Op.filterMap_new_rows (op : Op) :
    (op.rows old new).filterMap Row.new =
      if op.kind = .equal then (old.toList.drop op.oldStart).take op.oldLength
      else (new.toList.drop op.newStart).take op.newLength := by
  dsimp only [Op.rows]
  generalize (old.toList.drop op.oldStart).take op.oldLength = oldLines
  generalize (new.toList.drop op.newStart).take op.newLength = newLines
  cases op.kind <;> simp [Row.new, Function.comp_def, List.filterMap_append, List.filterMap_map]

/-- Equal runs are equal as lists of lines. -/
theorem Same.take_drop_eq (h : Same old new i j n) :
    (old.toList.drop i).take n = (new.toList.drop j).take n := by
  refine List.ext_getElem? fun k => ?_
  rw [List.getElem?_take, List.getElem?_take]
  split
  · next hk => simpa using h k hk
  · rfl

/-- The old lines of an operation are those at its place. -/
theorem Op.At.old_rows (h : op.At kinds old new i j) :
    (op.rows old new).filterMap Row.old = (old.toList.drop i).take op.oldLength := by
  rw [Op.filterMap_old_rows]
  by_cases hkind : op.kind = .insert
  · rw [h.oldLength.mpr hkind, List.take_zero, List.take_zero]
  · rw [h.oldStart (.inl hkind)]

/-- The new lines of an operation are those at its place. -/
theorem Op.At.new_rows (h : op.At kinds old new i j) :
    (op.rows old new).filterMap Row.new = (new.toList.drop j).take op.newLength := by
  by_cases hequal : op.kind = .equal
  · obtain ⟨heq, hsame⟩ := h.same hequal
    have hold := h.oldStart (.inl (by simp [hequal]))
    rw [Op.filterMap_new_rows, if_pos hequal, hold, heq, hsame.take_drop_eq]
  · rw [Op.filterMap_new_rows, if_neg hequal]
    by_cases hkind : op.kind = .delete
    · rw [h.newLength.mpr hkind, List.take_zero, List.take_zero]
    · rw [h.newStart (.inl hkind)]

/-- The old lines of a hunk are those that its script leads through, and so are the new ones. -/
theorem Leads.rows (h : Leads kinds old new i j ops i' j') :
    (Hunk.ofOps old new ops).old = (old.toList.drop i).take (i' - i) ∧
      (Hunk.ofOps old new ops).new = (new.toList.drop j).take (j' - j) := by
  simp only [Hunk.old, Hunk.new, Hunk.ofOps]
  induction ops generalizing i j with
  | nil =>
    obtain ⟨rfl, rfl⟩ := h
    simp
  | cons op ops ih =>
    obtain ⟨hop, hops⟩ := h
    obtain ⟨hold, hnew⟩ := ih hops
    obtain ⟨hle, hle'⟩ := hops.le
    rw [List.flatMap_cons, List.filterMap_append, List.filterMap_append, hold, hnew, hop.old_rows,
      hop.new_rows, ← List.drop_drop, ← List.drop_drop, ← List.take_add, ← List.take_add]
    constructor
    · rw [show op.oldLength + (i' - (i + op.oldLength)) = i' - i by omega]
    · rw [show op.newLength + (j' - (j + op.newLength)) = j' - j by omega]

/-! ## The header of a hunk -/

/-- The lines of an operation are changes unless it keeps them. -/
theorem Op.isChange_rows (op : Op) :
    ∀ row ∈ op.rows old new, row.isChange = (op.kind != .equal) := by
  intro row hrow
  dsimp only [Op.rows] at hrow
  cases hkind : op.kind with
  | equal =>
    simp only [hkind, List.mem_map] at hrow
    obtain ⟨_, _, rfl⟩ := hrow
    rfl
  | _ =>
    simp only [hkind, List.mem_append, List.mem_map] at hrow
    rcases hrow with ⟨_, _, rfl⟩ | ⟨_, _, rfl⟩ <;> rfl

/-- An operation of a script between the texts has lines. -/
theorem Op.At.rows_ne_nil (h : op.At kinds old new i j) (hold : i + op.oldLength ≤ old.size)
    (hnew : j + op.newLength ≤ new.size) : op.rows old new ≠ [] := by
  intro hnil
  have holdLines := h.old_rows
  have hnewLines := h.new_rows
  rw [hnil] at holdLines hnewLines
  have hlength := congrArg List.length holdLines
  have hlength' := congrArg List.length hnewLines
  simp only [List.filterMap_nil, List.length_nil, List.length_take, List.length_drop,
    Array.length_toList] at hlength hlength'
  have hinsert := h.oldLength.mp (by omega)
  have hdelete := h.newLength.mp (by omega)
  exact absurd (hinsert.symm.trans hdelete) nofun

/-- Each operation of a script inside both texts has a row. -/
theorem Leads.rows_ne_nil (h : Leads kinds old new i j ops i' j') (hold : i' ≤ old.size)
    (hnew : j' ≤ new.size) : ∀ op ∈ ops, op.rows old new ≠ [] := by
  induction ops generalizing i j with
  | nil => exact nofun
  | cons op ops ih =>
    obtain ⟨hle, hle'⟩ := h.2.le
    refine List.forall_mem_cons.mpr ⟨h.1.rows_ne_nil ?_ ?_, ih h.2⟩ <;> omega

/-- Of operations that take turns, the first one gives all of the change at the front. -/
theorem takeWhile_flatMap {f : Op → List Row}
    (hrows : ∀ a ∈ op :: ops, f a ≠ [] ∧ ∀ row ∈ f a, row.isChange = (a.kind != .equal))
    (halternate : Alternate (op :: ops)) :
    ((op :: ops).flatMap f).takeWhile Row.isChange = if op.kind = .equal then [] else f op := by
  -- A kept run that comes next ends the change.
  have hkept : ∀ op ops, f op ≠ [] → (∀ row ∈ f op, row.isChange = (op.kind != .equal)) →
      op.kind = .equal → ((op :: ops).flatMap f).takeWhile Row.isChange = [] := by
    intro op ops hne hchange hkind
    obtain ⟨row, rows, hcons⟩ := List.exists_cons_of_ne_nil hne
    have hrow : row.isChange = false := by
      rw [hchange row (by simp [hcons]), hkind]
      rfl
    rw [List.flatMap_cons, hcons, List.cons_append, List.takeWhile_cons_of_neg (by simp [hrow])]
  obtain ⟨⟨hne, hchange⟩, hrest⟩ := List.forall_mem_cons.mp hrows
  split
  · next hkind => exact hkept op ops hne hchange hkind
  · next hkind =>
    have hall : ∀ row ∈ f op, row.isChange = true := by
      intro row hrow
      rw [hchange row hrow, bne_iff_ne]
      exact hkind
    rw [List.flatMap_cons, List.takeWhile_append_of_pos hall]
    cases ops with
    | nil => simp
    | cons next ops =>
      have hnext : next.kind = .equal := by
        by_contra hne'
        exact hkind ((List.isChain_cons_cons.mp halternate).1.mpr hne')
      obtain ⟨hne', hchange'⟩ := hrest next List.mem_cons_self
      rw [hkept next ops hne' hchange' hnext, List.append_nil]

/-- The order of the rows of a change makes no difference to what it shows. -/
theorem shown_reverse {side : Row → Option String} {rows : List Row} :
    Shown side rows.reverse ↔ Shown side rows := by
  simp [Shown, List.filterMap_reverse]

/-- An operation that shows its old lines knows its old place, and every operation does if there
are no insertions or no deletions. -/
theorem Op.At.oldStart_of_shown (h : op.At kinds old new i j) (hne : op.rows old new ≠ [])
    (hshown : ¬ (kinds .insert ∧ kinds .delete) ∨
      Shown Row.old (if op.kind = .equal then [] else op.rows old new)) :
    op.oldStart = i := by
  by_cases hkind : op.kind = .insert
  · -- An insertion knows it only if there is no deletion, since its rows are no old lines.
    rcases hshown with hlone | hshown
    · exact h.oldStart (.inr fun hdelete => hlone ⟨hkind ▸ h.kind, hdelete⟩)
    · rw [if_neg (by simp [hkind])] at hshown
      refine absurd ?_ (hshown.resolve_left hne)
      rw [Op.filterMap_old_rows, h.oldLength.mpr hkind, List.take_zero]
  · exact h.oldStart (.inl hkind)

/-- An operation that shows its new lines knows its new place, and every operation does if there
are no insertions or no deletions. -/
theorem Op.At.newStart_of_shown (h : op.At kinds old new i j) (hne : op.rows old new ≠ [])
    (hshown : ¬ (kinds .insert ∧ kinds .delete) ∨
      Shown Row.new (if op.kind = .equal then [] else op.rows old new)) :
    op.newStart = j := by
  by_cases hkind : op.kind = .delete
  · rcases hshown with hlone | hshown
    · exact h.newStart (.inr fun hinsert => hlone ⟨hinsert, hkind ▸ h.kind⟩)
    · rw [if_neg (by simp [hkind])] at hshown
      refine absurd ?_ (hshown.resolve_left hne)
      rw [Op.filterMap_new_rows, if_neg (by simp [hkind]), h.newLength.mpr hkind, List.take_zero]
  · exact h.newStart (.inl hkind)

/-- The change at the front of a hunk is its first operation. -/
theorem Hunk.opening_ofOps (hrows : ∀ a ∈ op :: ops, a.rows old new ≠ [])
    (halternate : Alternate (op :: ops)) :
    (Hunk.ofOps old new (op :: ops)).opening = if op.kind = .equal then [] else op.rows old new :=
  takeWhile_flatMap (fun a ha => ⟨hrows a ha, a.isChange_rows⟩) halternate

/-- The change at the back of a hunk is its last operation, turned around. -/
theorem Hunk.closing_ofOps (hrows : ∀ a ∈ ops ++ [op], a.rows old new ≠ [])
    (halternate : Alternate (ops ++ [op])) :
    (Hunk.ofOps old new (ops ++ [op])).closing =
      (if op.kind = .equal then [] else op.rows old new).reverse := by
  have hturned : (ops ++ [op]).reverse = op :: ops.reverse := by simp
  have halternate' : Alternate (op :: ops.reverse) := by
    rw [← hturned]
    refine List.isChain_reverse.mpr (halternate.imp fun a b hab => ?_)
    exact ⟨fun hb => by_contra fun ha => hab.mp (not_not.mp ha) hb,
      fun ha => by_contra fun hb => ha (hab.mpr hb)⟩
  have hrows' : ∀ a ∈ op :: ops.reverse,
      (a.rows old new).reverse ≠ [] ∧
        ∀ row ∈ (a.rows old new).reverse, row.isChange = (a.kind != .equal) := by
    intro a ha
    rw [← hturned, List.mem_reverse] at ha
    exact ⟨fun hnil => hrows a ha (List.reverse_eq_nil_iff.mp hnil),
      fun row hrow => a.isChange_rows row (List.mem_reverse.mp hrow)⟩
  rw [Hunk.closing, Hunk.ofOps, List.reverse_flatMap, hturned, Function.comp_def,
    takeWhile_flatMap hrows' halternate']
  split <;> rfl

/-- A hunk begins with an operation that is at home at the first lines. -/
theorem Stands.exists_first (h : Stands kinds old new ops i j n i' j') (hold : i' ≤ old.size)
    (hnew : j' ≤ new.size) :
    ∃ first ∈ ops.head?, first.At kinds old new (i + n) (j + n) ∧ first.rows old new ≠ [] ∧
      (Hunk.ofOps old new ops).opening =
        if first.kind = .equal then [] else first.rows old new := by
  have hrows := h.leads.rows_ne_nil hold hnew
  obtain ⟨first, more, rfl⟩ := List.exists_cons_of_ne_nil h.changes.ne_nil
  exact ⟨first, rfl, h.leads.1, hrows first List.mem_cons_self,
    Hunk.opening_ofOps hrows h.alternate⟩

/-- A hunk ends with an operation that is at home at the last lines. -/
theorem Stands.exists_last (h : Stands kinds old new ops i j n i' j') (hold : i' ≤ old.size)
    (hnew : j' ≤ new.size) :
    ∃ last ∈ ops.getLast?, ∃ a b, last.At kinds old new a b ∧ a + last.oldLength = i' ∧
      b + last.newLength = j' ∧ last.rows old new ≠ [] ∧
      (Hunk.ofOps old new ops).closing =
        (if last.kind = .equal then [] else last.rows old new).reverse := by
  have hrows := h.leads.rows_ne_nil hold hnew
  obtain ⟨before, last, rfl⟩ := (List.eq_nil_or_concat' ops).resolve_left h.changes.ne_nil
  obtain ⟨a, b, -, hat, ha, hb⟩ := leads_append.mp h.leads
  exact ⟨last, List.getLast?_concat, a, b, hat, ha, hb, hrows last List.mem_concat_self,
    Hunk.closing_ofOps hrows h.alternate⟩

/-- A hunk has a row that is a change. -/
theorem Stands.exists_isChange (h : Stands kinds old new ops i j n i' j') (hold : i' ≤ old.size)
    (hnew : j' ≤ new.size) : ∃ row ∈ (Hunk.ofOps old new ops).rows, row.isChange := by
  obtain ⟨op, hop, hkind⟩ := h.changes
  have hne := h.leads.rows_ne_nil hold hnew op hop
  obtain ⟨row, hrow⟩ := List.exists_mem_of_ne_nil _ hne
  refine ⟨row, List.mem_flatMap.mpr ⟨op, hop, hrow⟩, ?_⟩
  rw [op.isChange_rows row hrow, bne_iff_ne]
  exact hkind

/-- The header of a hunk is right where its ends show it, or if there are no insertions or no
deletions. -/
theorem Stands.placed (h : Stands kinds old new ops i j n i' j') (hold : i' ≤ old.size)
    (hnew : j' ≤ new.size) :
    (Hunk.ofOps old new ops).Placed (¬ (kinds .insert ∧ kinds .delete)) (i + n) (j + n) := by
  obtain ⟨first, hhead, hfirst, hrows, hopening⟩ := h.exists_first hold hnew
  obtain ⟨last, hgetLast, a, b, hlast, ha, hb, hrows', hclosing⟩ := h.exists_last hold hnew
  obtain ⟨holdRows, hnewRows⟩ := h.leads.rows
  have hstarts : (Hunk.ofOps old new ops).oldStart = first.oldStart ∧
      (Hunk.ofOps old new ops).newStart = first.newStart := by
    simp [Hunk.ofOps, Option.mem_def.mp hhead]
  have hlengths : (Hunk.ofOps old new ops).oldLength = last.oldStop - first.oldStart ∧
      (Hunk.ofOps old new ops).newLength = last.newStop - first.newStart := by
    simp [Hunk.ofOps, Option.mem_def.mp hhead, Option.mem_def.mp hgetLast]
  -- The starts depend on how the hunk begins only, the lengths on both of its ends.
  constructor
  · intro hshown
    rw [hopening] at hshown
    exact hstarts.1.trans (hfirst.oldStart_of_shown hrows hshown)
  · intro hshown
    rw [hopening, hclosing, shown_reverse] at hshown
    have hstart := hfirst.oldStart_of_shown hrows (hshown.imp_right And.left)
    have hstop := hlast.oldStart_of_shown hrows' (hshown.imp_right And.right)
    rw [hlengths.1, holdRows, List.length_take, List.length_drop, Array.length_toList, Op.oldStop]
    omega
  · intro hshown
    rw [hopening] at hshown
    exact hstarts.2.trans (hfirst.newStart_of_shown hrows hshown)
  · intro hshown
    rw [hopening, hclosing, shown_reverse] at hshown
    have hstart := hfirst.newStart_of_shown hrows (hshown.imp_right And.left)
    have hstop := hlast.newStart_of_shown hrows' (hshown.imp_right And.right)
    rw [hlengths.2, hnewRows, List.length_take, List.length_drop, Array.length_toList, Op.newStop]
    omega

/-! ## Deleted and inserted lines -/

/-- Each operation of a script is at home somewhere between its ends. -/
theorem Leads.exists_at (h : Leads kinds old new i j ops i' j') :
    ∀ op ∈ ops, ∃ a b, op.At kinds old new a b ∧ a + op.oldLength ≤ i' ∧ b + op.newLength ≤ j' := by
  induction ops generalizing i j with
  | nil => exact fun _ hop => absurd hop List.not_mem_nil
  | cons op ops ih =>
    obtain ⟨hop, hops⟩ := h
    exact List.forall_mem_cons.mpr ⟨⟨i, j, hop, hops.le⟩, ih hops⟩

/-- A hunk with an insertion, alone or in a replacement, has a row that is no old line. -/
theorem Stands.exists_inserted (h : Stands kinds old new ops i j n i' j') (hnew : j' ≤ new.size)
    (hinsert : Mentions (fun kind => kind = .insert ∨ kind = .replace) ops) :
    ∃ row ∈ (Hunk.ofOps old new ops).rows, row.old = none := by
  obtain ⟨op, hop, hkind⟩ := hinsert
  obtain ⟨a, b, hat, -, hb⟩ := h.leads.exists_at op hop
  have hequal : op.kind ≠ .equal := by rcases hkind with hkind | hkind <;> simp [hkind]
  have hpos : op.newLength ≠ 0 := by
    rw [ne_eq, hat.newLength]
    rcases hkind with hkind | hkind <;> simp [hkind]
  have hsome : (op.rows old new).filterMap Row.new ≠ [] := by
    rw [hat.new_rows]
    refine List.ne_nil_of_length_pos ?_
    rw [List.length_take, List.length_drop, Array.length_toList]
    omega
  obtain ⟨line, hline⟩ := List.exists_mem_of_ne_nil _ hsome
  obtain ⟨row, hrow, hline⟩ := List.mem_filterMap.mp hline
  have hchange : row.isChange := (op.isChange_rows row hrow).trans (bne_iff_ne.mpr hequal)
  exact ⟨row, List.mem_flatMap.mpr ⟨op, hop, hrow⟩, Row.old_eq_none hchange hline⟩

/-- A hunk with a deletion, alone or in a replacement, has a row that is no new line. -/
theorem Stands.exists_deleted (h : Stands kinds old new ops i j n i' j') (hold : i' ≤ old.size)
    (hdelete : Mentions (fun kind => kind = .delete ∨ kind = .replace) ops) :
    ∃ row ∈ (Hunk.ofOps old new ops).rows, row.new = none := by
  obtain ⟨op, hop, hkind⟩ := hdelete
  obtain ⟨a, b, hat, ha, -⟩ := h.leads.exists_at op hop
  have hequal : op.kind ≠ .equal := by rcases hkind with hkind | hkind <;> simp [hkind]
  have hpos : op.oldLength ≠ 0 := by
    rw [ne_eq, hat.oldLength]
    rcases hkind with hkind | hkind <;> simp [hkind]
  have hsome : (op.rows old new).filterMap Row.old ≠ [] := by
    rw [hat.old_rows]
    refine List.ne_nil_of_length_pos ?_
    rw [List.length_take, List.length_drop, Array.length_toList]
    omega
  obtain ⟨line, hline⟩ := List.exists_mem_of_ne_nil _ hsome
  obtain ⟨row, hrow, hline⟩ := List.mem_filterMap.mp hline
  have hchange : row.isChange := (op.isChange_rows row hrow).trans (bne_iff_ne.mpr hequal)
  exact ⟨row, List.mem_flatMap.mpr ⟨op, hop, hrow⟩, Row.new_eq_none hchange hline⟩

end

end Fettle.Diff
