import Fettle.Proofs.Text.Offset
import Fettle.Span.Edit
import Mathlib.Data.List.Basic

/-!
# Replacing several spans of a text at once

The meaning of a list of edits that does not depend on the order in which they are applied: every
character outside all spans is kept, and every content stands where its span was. `atOnce` says
this for each offset of the text by itself. For replacements that are listed in the order of the
text, `stitch` builds the same text piece by piece (`stitch_eq_atOnce`), and one more replacement
at the end of the list changes only the last piece (`stitch_concat`), which is how a patcher that
works from the end of the text meets it.
-/

namespace Fettle.Fix

/-- A content that takes the place of the characters from one offset of a text up to another. -/
structure Replacement where
  /-- The number of characters before the replaced ones. -/
  start : Nat
  /-- The number of characters up to the end of the replaced ones. -/
  stop : Nat
  /-- What stands in their place. -/
  content : List Char
deriving DecidableEq, Repr

namespace Replacement

/-- The replacement that an edit of a text stands for. -/
def ofEdit (text : List Char) (e : Edit) : Replacement :=
  ⟨Text.offset text e.start, Text.offset text e.stop, e.content.toList⟩

/-- A replacement covers the characters that it removes. -/
def Covers (r : Replacement) (i : Nat) : Prop := r.start ≤ i ∧ i < r.stop

instance (r : Replacement) (i : Nat) : Decidable (r.Covers i) :=
  inferInstanceAs (Decidable (_ ∧ _))

/-- What stands at one offset of a text once all replacements are made: the contents of those
that start there, as they are listed, and then the character there, unless one covers it. -/
def piece (text : List Char) (rs : List Replacement) (i : Nat) : List Char :=
  (rs.filter (·.start = i)).flatMap content ++
    if ∃ r ∈ rs, r.Covers i then [] else text[i]?.toList

/-- A text with all replacements made at once. Contents may also stand after the last
character. -/
def atOnce (text : List Char) (rs : List Replacement) : List Char :=
  (List.range (text.length + 1)).flatMap (piece text rs)

/-- Replacements are in order between two offsets if each ends at or before the start of the next
one. -/
def InOrder : Nat → List Replacement → Nat → Prop
  | first, [], last => first ≤ last
  | first, r :: rs, last => first ≤ r.start ∧ r.start ≤ r.stop ∧ InOrder r.stop rs last

/-- The part of a text between two offsets, with replacements made that are in order there. -/
def stitch (text : List Char) : Nat → List Replacement → Nat → List Char
  | first, [], last => (text.take last).drop first
  | first, r :: rs, last =>
    (text.take r.start).drop first ++ r.content ++ stitch text r.stop rs last

/-! ## Replacements in order -/

/-- Replacements in order leave the second offset at or behind the first. -/
theorem InOrder.le {rs : List Replacement} {first last : Nat} (h : InOrder first rs last) :
    first ≤ last := by
  induction rs generalizing first with
  | nil => exact h
  | cons r rs ih =>
    obtain ⟨hstart, hstop, hrest⟩ := h
    have := ih hrest
    omega

/-- Replacements that are in order from an offset on start there or later. -/
theorem InOrder.le_start {rs : List Replacement} {first last : Nat} (h : InOrder first rs last)
    {r : Replacement} (hr : r ∈ rs) : first ≤ r.start := by
  induction rs generalizing first with
  | nil => cases hr
  | cons r' rs ih =>
    obtain ⟨hstart, hstop, hrest⟩ := h
    rcases List.mem_cons.mp hr with rfl | hr
    · exact hstart
    · have := ih hrest hr
      omega

/-- One more replacement may follow replacements that are in order. -/
theorem InOrder.concat {rs : List Replacement} {r : Replacement} {first last : Nat}
    (h : InOrder first rs r.start) (hr : r.start ≤ r.stop) (hlast : r.stop ≤ last) :
    InOrder first (rs ++ [r]) last := by
  induction rs generalizing first with
  | nil => exact ⟨h, hr, hlast⟩
  | cons r' rs ih => exact ⟨h.1, h.2.1, ih h.2.2⟩

/-- One more replacement at the end of the list cuts the last piece of the text in two. -/
theorem stitch_concat (text : List Char) (rs : List Replacement) (r : Replacement)
    (first last : Nat) :
    stitch text first (rs ++ [r]) last =
      stitch text first rs r.start ++ r.content ++ (text.take last).drop r.stop := by
  induction rs generalizing first with
  | nil => rfl
  | cons r' rs ih => simp only [List.cons_append, stitch, ih, List.append_assoc]

/-! ## Stitching replaces everything at once -/

/-- Before all replacements, the text is unchanged. -/
theorem piece_of_lt (text : List Char) {rs : List Replacement} {i : Nat}
    (h : ∀ r ∈ rs, i < r.start) : piece text rs i = text[i]?.toList := by
  have hstart : rs.filter (·.start = i) = [] := by
    rw [List.filter_eq_nil_iff]
    intro r hr
    have := h r hr
    simp only [decide_eq_true_eq]
    omega
  have hcovers : ¬ ∃ r ∈ rs, r.Covers i := by
    rintro ⟨r, hr, hle, -⟩
    have := h r hr
    omega
  rw [piece, hstart, if_neg hcovers]
  rfl

/-- What stands at an offset that the first replacement covers: its content if it starts there,
and nothing otherwise. -/
theorem piece_cons_of_covers (text : List Char) {r : Replacement} {rs : List Replacement} {i : Nat}
    (hr : r.Covers i) (h : ∀ r' ∈ rs, i < r'.start) :
    piece text (r :: rs) i = if r.start = i then r.content else [] := by
  have hstart : rs.filter (·.start = i) = [] := by
    rw [List.filter_eq_nil_iff]
    intro r' hr'
    have := h r' hr'
    simp only [decide_eq_true_eq]
    omega
  rw [piece, if_pos ⟨r, List.mem_cons_self .., hr⟩, List.filter_cons, hstart]
  simp only [decide_eq_true_eq]
  split_ifs <;> simp

/-- What stands at an offset that the first replacement does not cover: its content if it starts
there, and then whatever the others leave there. -/
theorem piece_cons_of_not_covers (text : List Char) {r : Replacement} {rs : List Replacement}
    {i : Nat} (hr : ¬ r.Covers i) :
    piece text (r :: rs) i = (if r.start = i then r.content else []) ++ piece text rs i := by
  have hcovers : (∃ r' ∈ r :: rs, r'.Covers i) ↔ ∃ r' ∈ rs, r'.Covers i := by
    simp [hr]
  unfold piece
  simp only [List.filter_cons, hcovers, decide_eq_true_eq]
  split_ifs <;> simp

/-- The characters between two offsets, one by one. -/
theorem drop_take_eq_flatMap (text : List Char) {first last : Nat} (h : first ≤ last) :
    (text.take last).drop first =
      (List.range' first (last - first)).flatMap fun i => text[i]?.toList := by
  obtain ⟨n, rfl⟩ := Nat.exists_eq_add_of_le h
  rw [Nat.add_sub_cancel_left]
  induction n with
  | zero => simp
  | succ n ih =>
    -- One more character is taken, unless the text has ended.
    rw [List.range'_1_concat, List.flatMap_append, ← ih (Nat.le_add_right ..), ← Nat.add_assoc,
      List.take_add_one]
    rcases Nat.lt_or_ge (first + n) text.length with hlt | hge
    · rw [List.drop_append_of_le_length (by rw [List.length_take]; omega)]
      simp
    · simp [List.getElem?_eq_none hge]

/-- On the characters that the first replacement covers, its content is all that stands. -/
theorem flatMap_piece_cons_covered (text : List Char) {r : Replacement} {rs : List Replacement}
    (h : ∀ r' ∈ rs, r.stop ≤ r'.start) :
    (List.range' r.start (r.stop - r.start)).flatMap (piece text (r :: rs)) =
      if r.start < r.stop then r.content else [] := by
  have hpiece : ∀ i, r.start ≤ i → i < r.stop →
      piece text (r :: rs) i = if r.start = i then r.content else [] := fun i hle hlt =>
    piece_cons_of_covers text ⟨hle, hlt⟩ fun r' hr' => Nat.lt_of_lt_of_le hlt (h r' hr')
  split_ifs with hlt
  -- The content stands at the first of these characters, and nothing at the others.
  · obtain ⟨n, hn⟩ : ∃ n, r.stop - r.start = n + 1 := ⟨r.stop - r.start - 1, by omega⟩
    have hrest : (List.range' (r.start + 1) n).flatMap (piece text (r :: rs)) = [] := by
      rw [List.flatMap_eq_nil_iff]
      intro i hi
      rw [List.mem_range'_1] at hi
      rw [hpiece i (by omega) (by omega), if_neg (by omega)]
    rw [hn, List.range'_succ, List.flatMap_cons, hrest, hpiece _ (Nat.le_refl _) hlt, if_pos rfl,
      List.append_nil]
  · rw [Nat.sub_eq_zero_of_le (Nat.not_lt.mp hlt)]
    rfl

/-- After the characters that the first replacement covers, only an insertion adds to what the
other replacements leave there. -/
theorem flatMap_piece_cons_after (text : List Char) {r : Replacement} {rs : List Replacement}
    (h : r.start ≤ r.stop) (n : ℕ) :
    (List.range' r.stop (n + 1)).flatMap (piece text (r :: rs)) =
      (if r.start = r.stop then r.content else []) ++
        (List.range' r.stop (n + 1)).flatMap (piece text rs) := by
  have hpiece : ∀ i, r.stop ≤ i → piece text (r :: rs) i =
      (if r.start = i then r.content else []) ++ piece text rs i := fun i hle =>
    piece_cons_of_not_covers text fun hc => absurd hc.2 (Nat.not_lt.mpr hle)
  have hrest : (List.range' (r.stop + 1) n).flatMap (piece text (r :: rs)) =
      (List.range' (r.stop + 1) n).flatMap (piece text rs) := by
    apply List.flatMap_congr
    intro i hi
    rw [List.mem_range'_1] at hi
    rw [hpiece i (by omega), if_neg (by omega), List.nil_append]
  rw [List.range'_succ, List.flatMap_cons, List.flatMap_cons, hrest, hpiece _ (Nat.le_refl _),
    List.append_assoc]

/-- From an offset on, stitching gives what stands at each of the remaining offsets. -/
theorem stitch_eq_flatMap (text : List Char) {rs : List Replacement} {first : Nat}
    (h : InOrder first rs text.length) :
    stitch text first rs text.length =
      (List.range' first (text.length + 1 - first)).flatMap (piece text rs) := by
  induction rs generalizing first with
  | nil =>
    have hpiece : piece text [] = fun i => text[i]?.toList :=
      funext fun i => piece_of_lt text (by simp)
    rw [hpiece, ← drop_take_eq_flatMap text (Nat.le_succ_of_le h), stitch,
      List.take_of_length_le (Nat.le_succ _), List.take_length]
  | cons r rs ih =>
    obtain ⟨hfirst, hstop, hrest⟩ := h
    have hlast := hrest.le
    -- The offsets before the first replacement, those that it covers, and those after it.
    have hsplit : List.range' first (text.length + 1 - first) =
        List.range' first (r.start - first) ++ (List.range' r.start (r.stop - r.start) ++
          List.range' r.stop (text.length - r.stop + 1)) := by
      have e1 : List.range' r.start (r.stop - r.start) ++
          List.range' r.stop (text.length - r.stop + 1) =
          List.range' r.start (text.length + 1 - r.start) := by
        rw [show r.stop = r.start + (r.stop - r.start) by omega, Nat.add_sub_cancel_left,
          List.range'_append_1]
        congr 1
        omega
      rw [e1]
      conv_rhs => rw [show r.start = first + (r.start - first) by omega, Nat.add_sub_cancel_left,
        List.range'_append_1]
      congr 1
      omega
    have hbefore : (List.range' first (r.start - first)).flatMap (piece text (r :: rs)) =
        (text.take r.start).drop first := by
      rw [drop_take_eq_flatMap text hfirst]
      apply List.flatMap_congr
      intro i hi
      rw [List.mem_range'_1] at hi
      apply piece_of_lt
      intro r' hr'
      rcases List.mem_cons.mp hr' with rfl | hr'
      · omega
      · have := hrest.le_start hr'
        omega
    rw [stitch, ih hrest, hsplit, List.flatMap_append, List.flatMap_append, hbefore,
      flatMap_piece_cons_covered text fun r' hr' => hrest.le_start hr',
      flatMap_piece_cons_after text hstop, show text.length + 1 - r.stop = text.length - r.stop + 1
        by omega]
    -- The content stands where the span begins, be there characters to cover or not.
    rcases Nat.lt_or_ge r.start r.stop with hlt | hge
    · simp [hlt, Nat.ne_of_lt hlt]
    · simp [Nat.le_antisymm hstop hge]

/-- Replacements in order are made at once by stitching. -/
theorem stitch_eq_atOnce (text : List Char) {rs : List Replacement}
    (h : InOrder 0 rs text.length) : stitch text 0 rs text.length = atOnce text rs := by
  rw [stitch_eq_flatMap text h, atOnce, List.range_eq_range']
  rfl

end Replacement

end Fettle.Fix
