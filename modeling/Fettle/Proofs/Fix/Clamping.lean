import Fettle.Proofs.Fix.Patch

/-!
# Positions past the end of a row

A position past the end of a row, or past the last row, stands for that end. The patcher clamps
such a position when it comes to the edit, in a buffer that holds the contents of other edits by
then; `Text.clamp` clamps it in the text itself. For clamped edits the patcher is right
(`patch_clamp_cons`). Others it patches in the same way, whatever their contents, exactly if each
ends inside the text or before the place where the edit that is applied before it begins
(`patch_eq_clamped_iff`).

An edit that does not end apart from the one before it removes the beginning of that one's content,
or puts its own content behind it (`Buffer.apply_keepUpTo_of_not_anchored`). If the one content is
an `x`, the other a `y` and all that follow are empty, the text cannot be right any more: it is not
longer than it should be, it differs, and deletions keep it so (`Buffer.ofRows_foldl_apply_ne`).
-/

namespace Fettle

namespace Text

/-- The end of a text: the end of its last row. -/
def endOf (text : List Char) : Position :=
  ⟨(rows text).length - 1, ((rows text).getLast (rows_ne_nil text)).length⟩

/-- The place of a text that a position stands for: a column past the end of its row is that end,
and a row past the last one is the end of the text. -/
def clamp (text : List Char) (p : Position) : Position :=
  match (rows text)[p.row]? with
  | some row => ⟨p.row, min p.column row.length⟩
  | none => endOf text

end Text

/-- An edit whose span lies where it is in a text, once both ends are clamped. -/
def Edit.clamp (text : List Char) (e : Edit) : Edit :=
  ⟨Text.clamp text e.start, Text.clamp text e.stop, e.content⟩

/-- An edit with the same span and another content. -/
def Edit.refill (e : Edit) (content : String) : Edit := ⟨e.start, e.stop, content⟩

namespace Fix

/-- An edit ends apart from the one that is applied before it: it ends inside the text, or at a
place before the one where the other begins. -/
def EndsApart (text : List Char) (before e : Edit) : Prop :=
  Text.Inside text e.stop ∨ Text.clamp text e.stop < Text.clamp text before.start

instance (text : List Char) (before e : Edit) : Decidable (EndsApart text before e) :=
  inferInstanceAs (Decidable (_ ∨ _))

/-- Edits with the same spans in the same order. -/
def SameSpans (es es' : List Edit) : Prop :=
  List.Forall₂ (fun e e' => e.start = e'.start ∧ e.stop = e'.stop) es es'

section SameSpans

variable {es es' : List Edit}

/-- Being well formed is a matter of spans, -/
theorem SameSpans.wellFormed (h : SameSpans es es') (hwf : ∀ e ∈ es, e.WellFormed) :
    ∀ e ∈ es', e.WellFormed := by
  induction h with
  | nil => exact hwf
  | @cons e e' es es' hspan _ ih =>
    rw [List.forall_mem_cons] at hwf ⊢
    refine ⟨?_, ih hwf.2⟩
    rw [Edit.WellFormed, ← hspan.1, ← hspan.2]
    exact hwf.1

/-- and so is being clear below a position, -/
theorem SameSpans.clearBelow (h : SameSpans es es') {p : Position} (hclear : ClearBelow p es) :
    ClearBelow p es' := by
  induction h generalizing p with
  | nil => trivial
  | @cons e e' es es' hspan _ ih =>
    obtain ⟨hle, hrest⟩ := hclear
    exact ⟨hspan.2 ▸ hle, ih (hspan.1 ▸ hrest)⟩

/-- and being anchored there. -/
theorem SameSpans.anchoredBelow (h : SameSpans es es') {b : Buffer} {p : Position}
    (hanchored : b.AnchoredBelow p es) : b.AnchoredBelow p es' := by
  induction h generalizing p with
  | nil => trivial
  | @cons e e' es es' hspan _ ih =>
    obtain ⟨hstop, hrest⟩ := hanchored
    exact ⟨hspan.2 ▸ hstop, ih (hspan.1 ▸ hrest)⟩

/-- The same edits with one content for all of them. -/
theorem sameSpans_refill (es : List Edit) (content : String) :
    SameSpans es (es.map (·.refill content)) :=
  List.forall₂_map_right_iff.mpr (List.forall₂_same.mpr fun _ _ => ⟨rfl, rfl⟩)

end SameSpans

/-- The rows of a text locate a position where the text clamps it. -/
theorem locate_rows (text : List Char) (p : Position) :
    Buffer.locate (Text.rows text) p = Text.clamp text p := by
  have hne := Text.rows_ne_nil text
  unfold Buffer.locate Text.clamp Buffer.line
  rcases Nat.lt_or_ge p.row (Text.rows text).length with hlt | hge
  · rw [if_pos hlt, List.getElem?_eq_getElem hlt, List.getD_eq_getElem _ _ hlt]
  · have hlast := Nat.sub_lt (List.length_pos_iff.mpr hne) Nat.one_pos
    rw [if_neg (Nat.not_lt.mpr hge), List.getElem?_eq_none hge, Text.endOf,
      List.getLast_eq_getElem, List.getD_eq_getElem _ _ hlast]

/-- A clamped position lies inside the text. -/
theorem inside_clamp (text : List Char) (p : Position) : Text.Inside text (Text.clamp text p) := by
  rw [← holds_rows_iff, ← locate_rows]
  exact Buffer.holds_locate (Text.rows_ne_nil text) p

/-- Clamping keeps the order of positions. -/
theorem clamp_mono (text : List Char) {p q : Position} (h : p ≤ q) :
    Text.clamp text p ≤ Text.clamp text q := by
  rw [← locate_rows, ← locate_rows]
  exact Buffer.locate_mono _ h

/-- A position inside the text is its own clamped counterpart. -/
theorem clamp_eq_self {text : List Char} {p : Position} (h : Text.Inside text p) :
    Text.clamp text p = p := by
  rw [← locate_rows]
  exact Buffer.locate_eq_self ((holds_rows_iff text p).mpr h)

/-- Clamping an edit changes nothing in what it stands for. -/
theorem ofEdit_clamp (text : List Char) (e : Edit) :
    Replacement.ofEdit text (e.clamp text) = Replacement.ofEdit text e := by
  simp only [ofEdit_eq_located, Buffer.located, Edit.clamp, locate_rows,
    clamp_eq_self (inside_clamp text _)]

/-- Edits are anchored if each ends apart from the one before it. -/
theorem anchoredBelow_iff (text : List Char) (e : Edit) (es : List Edit) :
    Buffer.AnchoredBelow (Text.rows text) e.start es ↔ (e :: es).IsChain (EndsApart text) := by
  induction es generalizing e with
  | nil => simp [Buffer.AnchoredBelow]
  | cons e' es ih =>
    rw [List.isChain_cons_cons, ← ih, Buffer.AnchoredBelow, Buffer.Anchored, holds_rows_iff,
      locate_rows, locate_rows, EndsApart]

namespace Buffer

/-! ## Edits past the place up to which a buffer is kept -/

section Past

variable {b : Buffer} {p q : Position} {rest : List Char} {more : Buffer}

/-- A later position that the buffer holds has more text before it. -/
theorem length_before_lt (hlt : p < q) (hp : b.Holds p) (hq : b.Holds q) :
    (b.before p).length < (b.before q).length := by
  rcases hlt with hrow | ⟨hrow, hcolumn⟩
  · -- The beginning of the next row lies between the two.
    have hnext : (b.before p).length < (b.before ⟨p.row + 1, 0⟩).length := by
      have htake : b.take (p.row + 1) = b.take p.row ++ [b.line p.row] := by
        have hrow : p.row < b.length := hp.1
        have hline : b.line p.row = b[p.row] := List.getD_eq_getElem b [] hrow
        rw [List.take_add_one, List.getElem?_eq_getElem hrow, hline]
        rfl
      have hle := hp.2
      rw [length_before, length_before, htake, List.map_append, List.sum_append, List.map_singleton,
        List.sum_singleton]
      omega
    refine Nat.lt_of_lt_of_le hnext (length_before_le ?_ ⟨?_, Nat.zero_le _⟩ hq.1)
    · rw [Position.le_def]
      dsimp only
      omega
    · exact Nat.lt_of_le_of_lt hrow hq.1
  · have := hq.2
    rw [length_before, length_before, hrow]
    omega

/-- A position that is not anchored before the cut stands for the cut, and then for a place behind
it as soon as something stands there. -/
theorem locate_keepUpTo_of_not_anchored (hp : b.Holds p) (hle : b.locate q ≤ p)
    (hq : ¬ b.Anchored p q) (rest : List Char) (more : Buffer) :
    b.locate q = p ∧ p ≤ (b.keepUpTo p rest more).locate q ∧
      (rest ≠ [] → p < (b.keepUpTo p rest more).locate q) := by
  obtain ⟨hholds, hnot⟩ := not_or.mp hq
  have heq : b.locate q = p := by
    rw [Position.ext_iff]
    rw [Position.le_def] at hle
    rw [Position.lt_def] at hnot
    omega
  -- The position names the row of the cut and a column behind it, or a later row.
  have hbehind : q.row = p.row ∧ p.column < q.column ∨ p.row < q.row := by
    unfold Holds at hholds hp
    unfold locate at heq
    rw [Position.ext_iff] at heq
    split_ifs at heq with hrow
    · dsimp only at heq
      rw [heq.1] at hholds
      omega
    · omega
  have hlength : (b.keepUpTo p rest more).length = p.row + 1 + more.length := length_keepUpTo hp.1
  have hline : ((b.keepUpTo p rest more).line p.row).length = p.column + rest.length := by
    rw [line_keepUpTo hp.1, List.length_append, List.length_take, Nat.min_eq_left hp.2]
  have hrest : rest ≠ [] → 0 < rest.length := List.length_pos_iff.mpr
  refine ⟨heq, ?_⟩
  generalize b.keepUpTo p rest more = b' at hlength hline ⊢
  unfold locate
  simp only [Position.le_def, Position.lt_def]
  split_ifs with hrow
  · rcases hbehind with ⟨hrow', hcolumn⟩ | hrow'
    · dsimp only
      rw [hrow', hline]
      refine ⟨.inr ⟨rfl, by omega⟩, fun hne => .inr ⟨rfl, ?_⟩⟩
      have := hrest hne
      omega
    · exact ⟨.inl hrow', fun _ => .inl hrow'⟩
  · rcases Nat.eq_zero_or_pos more.length with hmore | hmore
    · have hlast : b'.length - 1 = p.row := by omega
      dsimp only
      rw [hlast, hline]
      refine ⟨.inr ⟨rfl, by omega⟩, fun hne => .inr ⟨rfl, ?_⟩⟩
      have := hrest hne
      omega
    · dsimp only
      exact ⟨.inl (by omega), fun _ => .inl (by omega)⟩

/-- What is kept up to a position behind the cut is kept up to the cut. -/
theorem keepUpTo_keepUpTo_of_le (hp : b.Holds p) (hle : p ≤ q) (rest' : List Char)
    (more' : Buffer) :
    ∃ rest'' more'', (b.keepUpTo p rest more).keepUpTo q rest' more' =
      b.keepUpTo p rest'' more'' := by
  -- On a later row the first cut is kept whole; on the same row it is cut once more.
  rcases hle with hrow | ⟨hrow, hcolumn⟩
  · refine ⟨rest, more.take (q.row - p.row - 1) ++
      (((b.keepUpTo p rest more).line q.row).take q.column ++ rest') :: more', ?_⟩
    have htake : (b.keepUpTo p rest more).take q.row =
        b.take p.row ++ ((b.line p.row).take p.column ++ rest) ::
          more.take (q.row - p.row - 1) := by
      have hlength : (b.take p.row).length = p.row := by
        rw [List.length_take, Nat.min_eq_left (Nat.le_of_lt hp.1)]
      obtain ⟨n, hn⟩ : ∃ n, q.row - p.row = n + 1 := ⟨q.row - p.row - 1, by omega⟩
      rw [keepUpTo, List.take_append, hlength, hn, List.take_succ_cons, Nat.add_sub_cancel,
        List.take_of_length_le (Nat.le_of_lt (hlength.symm ▸ hrow))]
    rw [keepUpTo, htake, List.append_assoc, List.cons_append]
    rfl
  · refine ⟨rest.take (q.column - p.column) ++ rest', more', ?_⟩
    have htake : ((b.keepUpTo p rest more).line q.row).take q.column =
        (b.line p.row).take p.column ++ rest.take (q.column - p.column) := by
      have hlength : ((b.line p.row).take p.column).length = p.column := by
        rw [List.length_take, Nat.min_eq_left hp.2]
      rw [← hrow, line_keepUpTo hp.1, List.take_append, hlength,
        List.take_of_length_le (hlength.symm ▸ hcolumn)]
    rw [keepUpTo, htake, take_keepUpTo hp.1 (Nat.le_of_eq hrow.symm), ← hrow, List.append_assoc]
    rfl

/-- An edit whose content holds no line feed leaves a buffer cut into rows. -/
theorem IsCut.apply (hb : b.IsCut) {e : Edit} (he : '\n' ∉ e.content.toList) :
    (b.apply e).IsCut := by
  have htake : ∀ row n, '\n' ∉ (b.line row).take n := fun row n h =>
    hb.not_mem_line row (List.mem_of_mem_take h)
  have hdrop : ∀ row n, '\n' ∉ (b.line row).drop n := fun row n h =>
    hb.not_mem_line row (List.mem_of_mem_drop h)
  unfold Buffer.apply
  split_ifs
  · intro line hline
    rcases List.mem_or_eq_of_mem_set hline with hline | rfl
    · exact hb line hline
    · simp only [List.mem_append, not_or]
      exact ⟨⟨htake _ _, he⟩, hdrop _ _⟩
  · intro line hline
    simp only [replaceLines, List.mem_append] at hline
    rcases hline with (hline | hline) | hline
    · exact hb line (List.mem_of_mem_take hline)
    · exact Text.not_mem_of_mem_rows hline
    · exact hb line (List.mem_of_mem_drop hline)
  · exact hb

/-- The text of a buffer, cut at a position at or behind the cut. -/
theorem exists_take_drop (hp : b.Holds p) (hle : p ≤ q) (hq : (b.keepUpTo p rest more).Holds q) :
    ∃ n ≤ (Text.ofRows (rest :: more)).length,
      (b.keepUpTo p rest more).before q = b.before p ++ (Text.ofRows (rest :: more)).take n ∧
      (b.keepUpTo p rest more).after q = (Text.ofRows (rest :: more)).drop n ∧
      (p < q → 0 < n) := by
  have hkept : (b.keepUpTo p rest more).Holds p := hp.keepUpTo hp (Position.le_refl p)
  have hlength := length_before_le hle hkept hq.1
  have hstrict : p < q → _ := fun hlt => length_before_lt hlt hkept hq
  have htext := before_append_after hq.1
  rw [before_keepUpTo hp (Position.le_refl p)] at hlength hstrict
  rw [ofRows_keepUpTo] at htext
  obtain ⟨n, hn⟩ := Nat.exists_eq_add_of_le hlength
  have hbefore := congrArg (List.take ((b.keepUpTo p rest more).before q).length) htext
  have hafter := congrArg (List.drop ((b.keepUpTo p rest more).before q).length) htext
  rw [List.take_left, hn, List.take_length_add_append] at hbefore
  rw [List.drop_left, hn, List.drop_length_add_append] at hafter
  refine ⟨n, ?_, hbefore, hafter, fun hlt => ?_⟩
  · have hsum := congrArg List.length htext
    rw [List.length_append, List.length_append, hn] at hsum
    omega
  · have := hstrict hlt
    omega

/-- An edit that ends behind the cut removes what is there, and its content may stand there. -/
theorem apply_keepUpTo_of_not_anchored (hcut : (b.keepUpTo p rest more).IsCut) (hp : b.Holds p)
    {e : Edit} (hwf : e.WellFormed) (hle : b.locate e.stop ≤ p) (hstop : ¬ b.Anchored p e.stop) :
    ∃ rest' more' i d, (b.keepUpTo p rest more).apply e =
        b.keepUpTo (b.locate e.start) rest' more' ∧
      i ≤ d ∧ d ≤ (Text.ofRows (rest :: more)).length ∧ (rest ≠ [] → 0 < d) ∧
      Text.ofRows (rest' :: more') = (Text.ofRows (rest :: more)).take i ++
        (e.content.toList ++ (Text.ofRows (rest :: more)).drop d) := by
  have hne : b.keepUpTo p rest more ≠ [] := by simp [keepUpTo]
  have hfree : ∀ row n, '\n' ∉ ((b.keepUpTo p rest more).line row).take n := fun row n h =>
    hcut.not_mem_line row (List.mem_of_mem_take h)
  obtain ⟨-, hbehind, hstrict⟩ := locate_keepUpTo_of_not_anchored hp hle hstop rest more
  obtain ⟨d, hd, hbefore, hafter, hpos⟩ := exists_take_drop hp hbehind (holds_locate hne e.stop)
  obtain ⟨rest', more', happly, htext⟩ := apply_eq_keepUpTo hne hwf (hfree _ _)
  rw [hafter] at htext
  have hstart_le : b.locate e.start ≤ p := Position.le_trans (locate_mono b hwf) hle
  by_cases hstart : b.Anchored p e.start
  · rw [hstart.locate_keepUpTo hp hstart_le, keepUpTo_keepUpTo hp hstart_le] at happly
    exact ⟨rest', more', 0, d, happly, Nat.zero_le d, hd, fun h => hpos (hstrict h), htext⟩
  · -- The edit begins behind the cut too, so what is between stays.
    obtain ⟨hstart_eq, hstart_behind, -⟩ :=
      locate_keepUpTo_of_not_anchored hp hstart_le hstart rest more
    obtain ⟨i, hi, hbefore', -, -⟩ := exists_take_drop hp hstart_behind (holds_locate hne e.start)
    obtain ⟨rest'', more'', hkeep⟩ := keepUpTo_keepUpTo_of_le hp hstart_behind rest' more'
    rw [hkeep] at happly
    refine ⟨rest'', more'', i, d, by rw [hstart_eq, happly], ?_, hd, fun h => hpos (hstrict h), ?_⟩
    · have hmono := length_before_le (locate_mono (b.keepUpTo p rest more) hwf)
        (holds_locate hne e.start) (holds_locate hne e.stop).1
      rw [hbefore, hbefore', List.length_append, List.length_append, List.length_take,
        List.length_take] at hmono
      omega
    · have hrows := congrArg Text.ofRows hkeep
      rw [ofRows_keepUpTo, ofRows_keepUpTo, hbefore', htext, List.append_assoc] at hrows
      exact (List.append_cancel_left hrows).symm

end Past

/-! ## Runs that differ from their clamped counterparts -/

section Differ

variable {b : Buffer} {p : Position} {rest : List Char} {more : Buffer}

/-- Nothing stands between the cut and the place of an edit that is not anchored before it. -/
theorem drop_before_of_not_anchored (hne : b ≠ []) {q : Position} (hle : q ≤ p)
    (hq : ¬ b.Anchored (b.locate p) q) :
    (b.before (b.locate p)).drop (b.before (b.locate q)).length = [] := by
  have hp : b.Holds (b.locate p) := holds_locate hne p
  rw [(locate_keepUpTo_of_not_anchored hp (locate_mono b hle) hq [] []).1, List.drop_length]

/-- Once a text differs from the clamped one and is not longer, deletions do not make up for it. -/
theorem ofRows_foldl_apply_ne (hne : b ≠ []) (hcut : b.IsCut) {es : List Edit}
    (hclear : ClearBelow p es) (hwf : ∀ e ∈ es, e.WellFormed) (hempty : ∀ e ∈ es, e.content = "")
    (hkept : (b.keepUpTo (b.locate p) rest more).IsCut) {tail : List Char}
    (hlength : (Text.ofRows (rest :: more)).length ≤ tail.length)
    (hdiffer : Text.ofRows (rest :: more) ≠ tail) :
    Text.ofRows (es.foldl apply (b.keepUpTo (b.locate p) rest more)) ≠ b.settled p es tail := by
  induction es generalizing p rest more tail with
  | nil =>
    rw [List.foldl_nil, ofRows_keepUpTo, settled_nil hne]
    exact fun h => hdiffer (List.append_cancel_left h)
  | cons e es ih =>
    obtain ⟨hle, hrest⟩ := hclear
    have he := hwf e List.mem_cons_self
    have hcontent : e.content.toList = [] := by
      rw [hempty e List.mem_cons_self]
      rfl
    have hkept' := hkept.apply (e := e) (by rw [hcontent]; exact List.not_mem_nil)
    rw [List.foldl_cons, settled_cons hne, hcontent, List.nil_append]
    by_cases hstop : b.Anchored (b.locate p) e.stop
    · obtain ⟨rest', more', happly, htext⟩ := apply_keepUpTo_of_anchored hne hcut he hle hstop
        rest more
      rw [hcontent, List.nil_append] at htext
      rw [happly] at hkept' ⊢
      refine ih hrest (fun e' he' => hwf e' (List.mem_cons_of_mem _ he'))
        (fun e' he' => hempty e' (List.mem_cons_of_mem _ he')) hkept' ?_ ?_
      · rw [htext, List.length_append, List.length_append]
        omega
      · rw [htext]
        exact fun h => hdiffer (List.append_cancel_left h)
    · obtain ⟨rest', more', i, d, happly, hid, hd, -, htext⟩ := apply_keepUpTo_of_not_anchored hkept
        (holds_locate hne p) he (locate_mono b hle) hstop
      rw [hcontent, List.nil_append] at htext
      rw [drop_before_of_not_anchored hne hle hstop, List.nil_append]
      rw [happly] at hkept' ⊢
      have hsum : (Text.ofRows (rest' :: more')).length + d =
          (Text.ofRows (rest :: more)).length + i := by
        rw [htext, List.length_append, List.length_take, List.length_drop]
        omega
      refine ih hrest (fun e' he' => hwf e' (List.mem_cons_of_mem _ he'))
        (fun e' he' => hempty e' (List.mem_cons_of_mem _ he')) hkept' (by omega) fun h => ?_
      -- An edit that removes nothing changes nothing.
      have hsame : i = d := by
        rw [h] at hsum
        omega
      rw [hsame, List.take_append_drop] at htext
      exact hdiffer (htext.symm.trans h)

/-- A text that begins with a character other than a line feed begins with it in its first row. -/
theorem ne_nil_of_ofRows_eq_cons {c : Char} (hc : c ≠ '\n') {cs : List Char}
    (h : Text.ofRows (rest :: more) = c :: cs) : rest ≠ [] := by
  rintro rfl
  cases more with
  | nil => cases h
  | cons row more =>
    rw [Text.ofRows_cons_cons] at h
    exact hc (List.cons.inj h).1.symm

/-- An edit that is not anchored below one whose content begins the text makes the run differ from
the clamped one, for some contents. -/
theorem exists_ofRows_foldl_apply_ne (hne : b ≠ []) (hcut : b.IsCut) {es : List Edit}
    (hclear : ClearBelow p es) (hwf : ∀ e ∈ es, e.WellFormed) (hnot : ¬ b.AnchoredBelow p es)
    (hkept : (b.keepUpTo (b.locate p) rest more).IsCut) {cs : List Char}
    (hfirst : Text.ofRows (rest :: more) = 'x' :: cs) :
    ∃ es', SameSpans es es' ∧ Text.ofRows (es'.foldl apply (b.keepUpTo (b.locate p) rest more)) ≠
      b.settled p es' (Text.ofRows (rest :: more)) := by
  induction es generalizing p rest more cs with
  | nil => exact absurd trivial hnot
  | cons e es ih =>
    obtain ⟨hle, hrest⟩ := hclear
    have he := hwf e List.mem_cons_self
    have hes : ∀ e' ∈ es, e'.WellFormed := fun e' he' => hwf e' (List.mem_cons_of_mem _ he')
    by_cases hstop : b.Anchored (b.locate p) e.stop
    · -- The edit is made where it belongs, and its content begins the text that it leaves.
      have hnot' : ¬ b.AnchoredBelow e.start es := fun h => hnot ⟨hstop, h⟩
      have hx : (e.refill "x").content.toList = ['x'] := show "x".toList = ['x'] from rfl
      have hkept' := hkept.apply (e := e.refill "x") (by rw [hx]; decide)
      obtain ⟨rest', more', happly, htext⟩ := apply_keepUpTo_of_anchored hne hcut
        (e := e.refill "x") he hle hstop rest more
      rw [happly] at hkept'
      obtain ⟨es', hspans, hdiffer⟩ :=
        ih hrest hes hnot' hkept' (htext.trans (congrArg (· ++ _) hx))
      refine ⟨e.refill "x" :: es', .cons ⟨rfl, rfl⟩ hspans, ?_⟩
      rw [List.foldl_cons, happly, settled_cons hne, ← htext]
      exact hdiffer
    · -- The edit removes the beginning of that text, or its content stands behind it.
      have hy : (e.refill "y").content.toList = ['y'] := show "y".toList = ['y'] from rfl
      have hkept' := hkept.apply (e := e.refill "y") (by rw [hy]; decide)
      obtain ⟨rest', more', i, d, happly, hid, hd, hpos, htext⟩ := apply_keepUpTo_of_not_anchored
        hkept (holds_locate hne p) (e := e.refill "y") he (locate_mono b hle) hstop
      have hd_pos := hpos (ne_nil_of_ofRows_eq_cons (by decide) hfirst)
      have hspans := sameSpans_refill es ""
      rw [happly] at hkept'
      rw [hy, List.singleton_append] at htext
      refine ⟨e.refill "y" :: _, .cons ⟨rfl, rfl⟩ hspans, ?_⟩
      rw [List.foldl_cons, happly, settled_cons hne, hy]
      refine ofRows_foldl_apply_ne hne hcut (hspans.clearBelow hrest) (hspans.wellFormed hes)
        (List.forall_mem_map.mpr fun _ _ => rfl) hkept' ?_ ?_
      · rw [htext]
        simp only [List.length_append, List.length_cons, List.length_take, List.length_drop]
        omega
      · have hbetween : (b.before (b.locate p)).drop
            (b.before (b.locate (e.refill "y").stop)).length = [] :=
          drop_before_of_not_anchored hne hle hstop
        rw [htext, hbetween]
        intro h
        have hsum := congrArg List.length h
        simp only [List.length_append, List.length_cons, List.length_take, List.length_drop,
          List.length_nil] at hsum
        obtain ⟨n, rfl⟩ : ∃ n, i = n + 1 := ⟨i - 1, by omega⟩
        rw [hfirst, List.take_succ_cons] at h
        exact absurd (List.cons.inj h).1 (by decide)

end Differ

end Buffer

/-! ## Patching with clamped edits -/

/-- Edits that are clear below a position stay so when all of them are clamped. -/
theorem clearBelow_map_clamp (text : List Char) {p : Position} {es : List Edit}
    (h : ClearBelow p es) : ClearBelow (Text.clamp text p) (es.map (Edit.clamp text)) := by
  induction es generalizing p with
  | nil => trivial
  | cons e es ih => exact ⟨clamp_mono text h.1, ih h.2⟩

/-- What clamped edits stand for, all at once. -/
theorem patch_clamp_cons (text : String) {e : Edit} {es : List Edit}
    (hwf : ∀ e' ∈ e :: es, e'.WellFormed) (hclear : ClearBelow e.start es) :
    patch text ((e :: es).map (Edit.clamp text.toList)) = String.ofList (Replacement.atOnce
      text.toList ((e :: es).map (Replacement.ofEdit text.toList)).reverse) := by
  have hwf' : ∀ e' ∈ (e :: es).map (Edit.clamp text.toList), e'.WellFormed :=
    List.forall_mem_map.mpr fun e' he' => clamp_mono text.toList (hwf e' he')
  have hinside : ∀ e' ∈ es.map (Edit.clamp text.toList), Text.Inside text.toList e'.stop :=
    List.forall_mem_map.mpr fun e' _ => inside_clamp _ _
  rw [List.map_cons] at hwf' ⊢
  rw [patch_cons text hwf' (clearBelow_map_clamp _ hclear) (anchoredBelow_of_inside _ hinside),
    ← List.map_cons, List.map_map]
  simp only [Function.comp_def, ofEdit_clamp]

/-- If an edit does not end apart from the one before it, some contents show the difference. -/
theorem exists_patch_ne_clamp (text : String) {e : Edit} {es : List Edit}
    (hwf : ∀ e' ∈ e :: es, e'.WellFormed) (hclear : ClearBelow e.start es)
    (hnot : ¬ Buffer.AnchoredBelow (Text.rows text.toList) e.start es) :
    ∃ es', SameSpans (e :: es) es' ∧
      patch text es' ≠ patch text (es'.map (Edit.clamp text.toList)) := by
  have hne := Text.rows_ne_nil text.toList
  have hcut := isCut_rows text.toList
  have hx : (e.refill "x").content.toList = ['x'] := show "x".toList = ['x'] from rfl
  have he : (e.refill "x").WellFormed := hwf e List.mem_cons_self
  obtain ⟨rest, more, happly, htext⟩ := Buffer.apply_first hne hcut he
  have hkept := hcut.apply (e := e.refill "x") (by rw [hx]; decide)
  rw [happly] at hkept
  obtain ⟨es', hspans, hdiffer⟩ := Buffer.exists_ofRows_foldl_apply_ne hne hcut hclear
    (fun e' he' => hwf e' (List.mem_cons_of_mem _ he')) hnot hkept
    (htext.trans (congrArg (· ++ _) hx))
  have hsame : SameSpans (e :: es) (e.refill "x" :: es') := .cons ⟨rfl, rfl⟩ hspans
  have hwf' := hsame.wellFormed hwf
  have hclear' : ClearBelow (e.refill "x").start es' := hspans.clearBelow hclear
  refine ⟨_, hsame, fun h => hdiffer ?_⟩
  rw [patch_clamp_cons text hwf' hclear', patch, List.foldl_cons, happly] at h
  exact (String.ofList_injective h).trans (settled_eq_atOnce _ hwf' hclear' htext).symm

/-- Patching a text with selected edits that are clamped replaces all spans at once. The edits that
are not clamped do the same, whatever their contents, exactly if each ends apart from the one that
is selected before it. -/
theorem patch_eq_clamped_iff (text : String) (edits : List Edit)
    (hwf : ∀ e ∈ edits, e.WellFormed) :
    patch text ((select edits).map (Edit.clamp text.toList)) = String.ofList (Replacement.atOnce
        text.toList ((select edits).map (Replacement.ofEdit text.toList)).reverse) ∧
      ((∀ es, SameSpans (select edits) es →
          patch text es = patch text (es.map (Edit.clamp text.toList))) ↔
        (select edits).IsChain (EndsApart text.toList)) := by
  cases hselect : select edits with
  | nil =>
    refine ⟨patch_nil text, fun _ => .nil, fun _ es hes => ?_⟩
    cases hes
    rfl
  | cons e es =>
    have hwf' : ∀ e' ∈ e :: es, e'.WellFormed := fun e' he' =>
      hwf e' (mem_of_mem_select (hselect ▸ he'))
    -- The edit in front is applied first, so it is the others that have to end apart.
    have hclear := clearBelow_of_select_eq_cons hselect
    refine ⟨patch_clamp_cons text hwf' hclear, ?_⟩
    rw [← anchoredBelow_iff]
    constructor
    · intro h
      by_contra hnot
      obtain ⟨es', hspans, hdiffer⟩ := exists_patch_ne_clamp text hwf' hclear hnot
      exact hdiffer (h es' hspans)
    · intro hanchored es' hspans
      have hwf'' := hspans.wellFormed hwf'
      obtain ⟨e', es', ⟨hstart, -⟩, hrest, rfl⟩ := List.forall₂_cons_left_iff.mp hspans
      have hclear' : ClearBelow e'.start es' := hstart ▸ SameSpans.clearBelow hrest hclear
      have hanchored' : Buffer.AnchoredBelow (Text.rows text.toList) e'.start es' :=
        hstart ▸ SameSpans.anchoredBelow hrest hanchored
      rw [patch_clamp_cons text hwf'' hclear', patch_cons text hwf'' hclear' hanchored']

/-- An edit that ends past the end of its row, with edits on later rows and behind the last one. -/
def rowEndEdits : List Edit :=
  [⟨⟨0, 1⟩, ⟨0, 9⟩, "X"⟩, .insertion ⟨1, 1⟩ "Y", .insertion ⟨9, 0⟩ "end"]

/-- Edits past the ends of a row and of the text that end apart are applied as their clamped
counterparts are. -/
theorem patch_eq_clamped_iff_rowEndEdits :
    (∀ e ∈ rowEndEdits, e.WellFormed) ∧
      (select rowEndEdits).IsChain (EndsApart "ab\ncd\n".toList) ∧
      patch "ab\ncd\n" (select rowEndEdits) = "aX\ncYd\nend" := by
  have hwf : ∀ e ∈ rowEndEdits, e.WellFormed := by decide
  have hselect : select rowEndEdits =
      [.insertion ⟨9, 0⟩ "end", .insertion ⟨1, 1⟩ "Y", ⟨⟨0, 1⟩, ⟨0, 9⟩, "X"⟩] := by cbv
  have happart : (select rowEndEdits).IsChain (EndsApart "ab\ncd\n".toList) := by
    rw [hselect]
    decide
  refine ⟨hwf, happart, ?_⟩
  rw [(patch_eq_clamped_iff _ _ hwf).2.mpr happart _ (List.forall₂_same.mpr fun _ _ => ⟨rfl, rfl⟩),
    hselect]
  cbv

/-- An insertion past the end of a row, and a deletion further along that row but before it. -/
def pastEndEdits : List Edit := [.insertion ⟨0, 9⟩ "WXYZ", .deletion ⟨0, 4⟩ ⟨0, 5⟩]

/-- The deletion removes a character of the content that was inserted, though both edits stand for
the end of the text, where nothing is to be removed. -/
theorem patch_ne_clamped_pastEndEdits :
    (∀ e ∈ pastEndEdits, e.WellFormed) ∧ patch "abc" (select pastEndEdits) = "abcWYZ" ∧
      patch "abc" ((select pastEndEdits).map (Edit.clamp "abc".toList)) = "abcWXYZ" := by
  have hselect : select pastEndEdits = pastEndEdits := by cbv
  rw [hselect]
  exact ⟨by decide, by cbv, by cbv⟩

end Fix

end Fettle
