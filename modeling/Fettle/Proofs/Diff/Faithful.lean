import Fettle.Proofs.Diff.Reading

/-!
# A diff is a faithful patch

A hunk is read as the numbers of its header and its rows: lines that are kept, deleted or inserted.
Its rows are right wherever it stands: the old ones are the lines of the old text there, the new
ones those of the new text, and what lies between two hunks is common (`Patches`). Its header is
right where the ends of the hunk show it (`Hunk.Placed`). An insertion that sliding has taken past
a deletion no longer knows its place in the old lines, so where a hunk begins or ends with lines
that are inserted and replace none, the numbers of the old side may be wrong, and those of the new
side where it begins or ends with lines that are deleted and not replaced
(`unified_swapped_header`). That may happen at the top and at the bottom of the texts only, since
all other hunks begin and end with lines that are kept. Where the whole diff only deletes lines, or
only inserts lines, there is nothing to slide past, and all headers are right (`OneSided`).
-/

namespace Fettle.Diff

/-- A diff only deletes lines, or only inserts lines. -/
def OneSided (hunks : List Hunk) : Prop :=
  (∀ h ∈ hunks, ∀ row ∈ h.rows, row.old ≠ none) ∨ ∀ h ∈ hunks, ∀ row ∈ h.rows, row.new ≠ none

/-- Hunks turn old lines into new ones, from the `i`-th old line and the `j`-th new line on. If they
are `sure`, all their headers are right. -/
inductive Patches (sure : Prop) : ℕ → ℕ → List String → List String → List Hunk → Prop
  /-- Lines behind the last hunk are common. -/
  | rest (i j : ℕ) (lines : List String) : Patches sure i j lines lines []
  /-- Lines before a hunk are common, and the old lines of the hunk are replaced by its new lines.
  The hunk has a change. It begins with one only at the top of both texts, and ends with one only at
  the bottom. -/
  | hunk {i j : ℕ} {gap old new : List String} {h : Hunk} {hunks : List Hunk}
      (change : ∃ row ∈ h.rows, row.isChange)
      (placed : h.Placed sure (i + gap.length) (j + gap.length))
      (top : h.opening ≠ [] → i + gap.length = 0 ∧ j + gap.length = 0)
      (bottom : h.closing ≠ [] → old = [] ∧ new = [])
      (more : Patches sure (i + gap.length + h.old.length) (j + gap.length + h.new.length)
        old new hunks) :
      Patches sure i j (gap ++ h.old ++ old) (gap ++ h.new ++ new) (h :: hunks)

section

variable {kinds : Kind → Prop} {sure : Prop} {old new : Array String} {i j i' j' n : ℕ}

/-- A list falls into what is before a window, the window, and what is behind it. -/
theorem drop_eq_append (lines : List String) (hle : i + n ≤ i') :
    lines.drop i =
      (lines.drop i).take n ++ (lines.drop (i + n)).take (i' - (i + n)) ++ lines.drop i' := by
  calc lines.drop i
      = (lines.drop i).take n ++ lines.drop (i + n) := by
        rw [← List.drop_drop, List.take_append_drop]
    _ = (lines.drop i).take n ++ ((lines.drop (i + n)).take (i' - (i + n)) ++
          (lines.drop (i + n)).drop (i' - (i + n))) := by rw [List.take_append_drop]
    _ = (lines.drop i).take n ++ (lines.drop (i + n)).take (i' - (i + n)) ++ lines.drop i' := by
        rw [List.drop_drop, Nat.add_sub_cancel' hle, List.append_assoc]

/-- Hunks that cover two texts turn one into the other. -/
theorem patches_of_covered (hsure : sure → ¬ (kinds .insert ∧ kinds .delete))
    {pieces : List (List Op)} (h : Covered kinds old new i j pieces) :
    Patches sure i j (old.toList.drop i) (new.toList.drop j)
      (pieces.map (Hunk.ofOps old new)) := by
  -- The places are generalized: behind a hunk the rest of both texts is covered anew.
  induction pieces generalizing i j with
  | nil =>
    obtain ⟨n, hgap, hold, hnew⟩ := h
    have heq := hgap.take_drop_eq
    rw [List.take_of_length_le (by rw [List.length_drop, Array.length_toList]; omega),
      List.take_of_length_le (by rw [List.length_drop, Array.length_toList]; omega)] at heq
    rw [heq]
    exact .rest i j _
  | cons piece pieces ih =>
    obtain ⟨n, i', j', hstands, hcovered⟩ := h
    obtain ⟨hold, hnew⟩ := hcovered.le
    obtain ⟨hle, hle'⟩ := hstands.leads.le
    obtain ⟨holdRows, hnewRows⟩ := hstands.leads.rows
    obtain ⟨first, hhead, -, -, hopening⟩ := hstands.exists_first hold hnew
    obtain ⟨last, hgetLast, -, -, -, -, -, -, hclosing⟩ := hstands.exists_last hold hnew
    have hgap : ((old.toList.drop i).take n).length = n := by
      rw [List.length_take, List.length_drop, Array.length_toList]
      omega
    have holdLength : i + n + (Hunk.ofOps old new piece).old.length = i' := by
      rw [holdRows, List.length_take, List.length_drop, Array.length_toList]
      omega
    have hnewLength : j + n + (Hunk.ofOps old new piece).new.length = j' := by
      rw [hnewRows, List.length_take, List.length_drop, Array.length_toList]
      omega
    -- Both texts begin with the gap, then the rows of the hunk on their side.
    rw [drop_eq_append old.toList hle, drop_eq_append new.toList hle', ← holdRows, ← hnewRows,
      ← hstands.gap.take_drop_eq]
    refine .hunk (hstands.exists_isChange hold hnew) ?_ ?_ ?_ ?_
    · rw [hgap]
      exact (hstands.placed hold hnew).mono hsure
    · rw [hgap, hopening]
      exact fun hne => hstands.top first hhead fun hkind => hne (if_pos hkind)
    · rw [hclosing]
      intro hne
      have hchange : last.kind ≠ .equal := by
        intro hkind
        rw [if_pos hkind] at hne
        exact hne rfl
      obtain ⟨rfl, rfl⟩ := hstands.bottom last hgetLast hchange
      exact ⟨List.drop_eq_nil_of_le (by simp), List.drop_eq_nil_of_le (by simp)⟩
    · rw [hgap, holdLength, hnewLength]
      exact ih hcovered

/-- The rows of the hunks are lines of the texts. -/
theorem Patches.line_mem {old new : List String} {hunks : List Hunk}
    (h : Patches sure i j old new hunks) :
    ∀ hunk ∈ hunks, ∀ row ∈ hunk.rows, row.line ∈ old ∨ row.line ∈ new := by
  induction h with
  | rest => exact fun _ hhunk => absurd hhunk List.not_mem_nil
  | @hunk _ _ gap old new hunk hunks change placed top bottom more ih =>
    refine List.forall_mem_cons.mpr ⟨fun row hrow => ?_, fun hunk' hhunk' row hrow => ?_⟩
    · have hside : row.line ∈ hunk.old ∨ row.line ∈ hunk.new := by
        cases row with
        | kept line => exact .inl (List.mem_filterMap.mpr ⟨_, hrow, rfl⟩)
        | deleted line => exact .inl (List.mem_filterMap.mpr ⟨_, hrow, rfl⟩)
        | inserted line => exact .inr (List.mem_filterMap.mpr ⟨_, hrow, rfl⟩)
      exact hside.imp (fun h => List.mem_append_left _ (List.mem_append_right _ h))
        (fun h => List.mem_append_left _ (List.mem_append_right _ h))
    · exact (ih hunk' hhunk' row hrow).imp (List.mem_append_right _) (List.mem_append_right _)

/-- Hunks that only delete lines come from a search that has found no insertion, and hunks that only
insert lines from one that has found no deletion. -/
theorem OneSided.not_found_both
    (h : OneSided ((hunks (operations old new)).map (Hunk.ofOps old new))) :
    ¬ (Shows old new .insert ∧ Shows old new .delete) := by
  rintro ⟨hinsert, hdelete⟩
  have hstands := (covered_operations old new).exists_stands
  rcases h with hkept | hkept
  · obtain ⟨piece, hpiece, hmentions⟩ :=
      exists_mentions_hunks (nofun : Kind.insert ≠ .equal) (hinsert.resolve_left nofun)
    obtain ⟨i, j, n, i', j', hpiece', -, hnew⟩ := hstands piece hpiece
    obtain ⟨row, hrow, hnone⟩ := hpiece'.exists_inserted hnew hmentions
    exact hkept _ (List.mem_map_of_mem hpiece) row hrow hnone
  · obtain ⟨piece, hpiece, hmentions⟩ :=
      exists_mentions_hunks (nofun : Kind.delete ≠ .equal) (hdelete.resolve_left nofun)
    obtain ⟨i, j, n, i', j', hpiece', hold, -⟩ := hstands piece hpiece
    obtain ⟨row, hrow, hnone⟩ := hpiece'.exists_deleted hold hmentions
    exact hkept _ (List.mem_map_of_mem hpiece) row hrow hnone

/-- The hunks between lists of lines that differ turn one into the other. -/
theorem exists_patches (hne : old ≠ new) :
    ∃ pieces, hunks (operations old new) = pieces ∧ pieces ≠ [] ∧ (∀ piece ∈ pieces, piece ≠ []) ∧
      Patches (OneSided (pieces.map (Hunk.ofOps old new))) 0 0 old.toList new.toList
        (pieces.map (Hunk.ofOps old new)) := by
  have hcovered := covered_operations old new
  refine ⟨_, rfl, hunks_ne_nil (changes_operations hne), fun piece hpiece => ?_, ?_⟩
  · obtain ⟨i, j, n, i', j', hstands, -, -⟩ := hcovered.exists_stands piece hpiece
    exact hstands.changes.ne_nil
  · exact patches_of_covered OneSided.not_found_both hcovered

end

/-- The lines of a text, joined, are the text. -/
theorem join_lines (text : String) : String.join (lines text) = text := by
  refine String.toList_inj.mp ?_
  have hid : String.toList ∘ String.ofList = id := funext fun _ => String.toList_ofList
  calc (String.join (lines text)).toList
      = ((lines text).map String.toList).flatten := by rw [String.toList_join, List.flatMap_def]
    _ = (linesFrom [] text.toList).flatten := by rw [lines, List.map_map, hid, List.map_id]
    _ = text.toList := flatten_linesFrom [] text.toList

/-- The two lines that a diff begins with. -/
def nameText (name : String) : String := s!"--- {name} (original)\n+++ {name} (formatted)\n"

/-- Hunks are the diff of two texts: they are what is printed, and they turn the lines of one text
into those of the other. -/
structure IsDiff (name source formatted : String) (hunks : List Hunk) : Prop where
  /-- The diff is the printed hunks, behind the lines with the name. -/
  text : unified name source formatted = nameText name ++ String.join (hunks.map Hunk.text)
  /-- There is a hunk. -/
  nonempty : hunks ≠ []
  /-- The lines of a text are all of it. -/
  joined : String.join (lines source) = source ∧ String.join (lines formatted) = formatted
  /-- The hunks turn the lines of one text into those of the other. -/
  patches : Patches (OneSided hunks) 0 0 (lines source) (lines formatted) hunks
  /-- The headers and the rows, with the endings of their lines, can be read from the diff. -/
  readable : readHunks (String.join (hunks.map Hunk.text)) = hunks.map fun h => (h.header, h.rows)

/-- The diff of two texts is empty exactly if the texts are equal, and otherwise a patch that turns
one into the other. -/
theorem unified_faithful (name source formatted : String) :
    (unified name source formatted = "" ↔ source = formatted) ∧
      (source = formatted ∨ ∃ hunks, IsDiff name source formatted hunks) := by
  refine ⟨unified_eq_empty_iff, (eq_or_ne source formatted).imp_right fun hne => ?_⟩
  have hlines : (lines source).toArray ≠ (lines formatted).toArray := fun heq =>
    hne (lines_inj.mp (List.toArray_inj heq))
  obtain ⟨pieces, hpieces, hsome, hfull, hpatches⟩ := exists_patches hlines
  refine ⟨pieces.map (Hunk.ofOps (lines source).toArray (lines formatted).toArray), ?_⟩
  constructor
  · -- As there is a hunk, the names are printed.
    have hprinted : unified name source formatted = nameText name ++
        String.join (pieces.map (hunkText (lines source).toArray (lines formatted).toArray)) := by
      obtain ⟨piece, more, rfl⟩ := List.exists_cons_of_ne_nil hsome
      unfold unified
      rw [if_neg hne]
      simp only [hpieces, nameText]
    rw [hprinted, List.map_map]
    refine congrArg (nameText name ++ String.join ·) (List.map_congr_left fun piece hpiece => ?_)
    exact hunkText_eq (hfull piece hpiece)
  · exact fun hnil => hsome (List.map_eq_nil_iff.mp hnil)
  · exact ⟨join_lines source, join_lines formatted⟩
  · exact hpatches
  · refine readHunks_join fun hunk hhunk row hrow => ?_
    exact (hpatches.line_mem hunk hhunk row hrow).elim isLine_of_mem_lines isLine_of_mem_lines

/-- The insertion at the end of this hunk was found before the deletion, and slid past it. The
header counts the old lines up to the place where the insertion was found, so it says four, and what
is read back from the diff under that header are five. -/
theorem unified_swapped_header :
    ∃ h : Hunk, unified "demo.py" "1\n1\n0\n0\n0\n1\n" "1\n1\n0\n0\n1\n1\n" =
        nameText "demo.py" ++ h.text ∧
      readHunks h.text = [(h.header, h.rows)] ∧ h.header = "@@ -2,4 +2,5 @@\n" ∧
      h.oldLength = 4 ∧ h.old.length = 5 := by
  refine ⟨⟨1, 4, 1, 5, [.kept "1\n", .kept "0\n", .kept "0\n", .deleted "0\n", .kept "1\n",
    .inserted "1\n"]⟩, ?_, ?_, ?_, rfl, rfl⟩
  · decide +kernel
  · decide +kernel
  · decide +kernel

end Fettle.Diff
