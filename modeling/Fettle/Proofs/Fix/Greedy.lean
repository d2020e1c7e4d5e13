import Fettle.Proofs.Fix.Conflict
import Mathlib.Data.List.Sort

/-!
# The selection is the greedy one

Edits may be equal, so that a selection is told from others only if every edit is taken with its
place in the report. `Greedy` says of some reported edits that they are ranked, that each two of
them are clear of each other, and that every other edit overlaps one of them that ranks before it.
No two lists are greedy for the same edits, and the selected edits are the greedy ones
(`select_greedy`).

The walk that selects compares each edit with the one kept last and with no other. `Resolves` is
what it achieves from any limit on: it is `Greedy` for the edits that remain, except that an edit
may also be left out because it ends behind the limit. By induction on the remaining edits, exactly the
edits that the walk keeps resolve them (`resolves_iff`).
-/

namespace Fettle.Fix

/-- An edit with its place in the list in which it is reported. -/
abbrev Reported := Edit × ℕ

/-- A reported edit ranks before another if it ends later; if both end at one position, if it begins
later; and if they have the same span, if it is reported earlier. -/
def Reported.Before (x y : Reported) : Prop :=
  y.1.stop < x.1.stop ∨ y.1.stop = x.1.stop ∧
    (y.1.start < x.1.start ∨ y.1.start = x.1.start ∧ x.2 < y.2)

/-- What a greedy selection from some edits is. -/
structure Greedy (edits : List Edit) (kept : List Reported) : Prop where
  /-- Every kept edit is one of the edits. -/
  reported : ∀ x ∈ kept, x ∈ edits.zipIdx
  /-- The kept edits are in rank order, so none is kept twice. -/
  ranked : kept.Pairwise Reported.Before
  /-- Of any two kept edits, the one behind ends at or before the start of the one ahead. -/
  clear : kept.Pairwise fun x y => y.1.stop ≤ x.1.start
  /-- An edit that is not kept overlaps a kept edit that ranks before it. -/
  dropped : ∀ y ∈ edits.zipIdx, y ∉ kept → ∃ x ∈ kept, x.Before y ∧ y.1.Overlaps x.1

/-! ## Ranks of reported edits -/

/-- Of two reported edits only one goes before the other, -/
theorem Reported.Before.asymm {x y : Reported} (h : x.Before y) : ¬ y.Before x := by
  unfold Reported.Before at *
  simp only [Position.lt_def, Position.ext_iff] at *
  omega

/-- and none goes before itself. -/
theorem Reported.Before.irrefl (x : Reported) : ¬ x.Before x := fun h => h.asymm h

/-- A reported edit that ranks before another ranks ahead of it whenever both are reported. -/
theorem Reported.Before.ranksAhead {x y : Reported} (h : x.Before y) :
    ranksAhead x.1 y.1 = true := by
  unfold Reported.Before at h
  rw [ranksAhead_iff]
  simp only [Position.lt_def, Position.le_def, Position.ext_iff] at *
  omega

/-- The stable order of reported edits is the order of their ranks. -/
theorem Reported.before_of_zipIdxLE {x y : Reported} (h : List.zipIdxLE Fix.ranksAhead x y = true)
    (hne : x.2 ≠ y.2) : x.Before y := by
  unfold List.zipIdxLE at h
  unfold Reported.Before
  split_ifs at h with hxy hyx
  -- Of edits that rank ahead of each other the one reported earlier comes first.
  · rw [decide_eq_true_eq] at h
    rw [ranksAhead_iff] at hxy hyx
    simp only [Position.lt_def, Position.le_def, Position.ext_iff] at *
    omega
  · rw [ranksAhead_iff] at hxy hyx
    simp only [Position.lt_def, Position.le_def, Position.ext_iff] at *
    omega

/-- The reported edits in rank order. -/
def rankedReports (edits : List Edit) : List Reported :=
  edits.zipIdx.mergeSort (List.zipIdxLE ranksAhead)

/-- The ranked reports are the reported edits with their places. -/
theorem mem_rankedReports {edits : List Edit} {x : Reported} :
    x ∈ rankedReports edits ↔ x ∈ edits.zipIdx :=
  List.mem_mergeSort

/-- Without their places, ranked reports are the ranked edits. -/
theorem rankedReports_map_fst (edits : List Edit) :
    (rankedReports edits).map Prod.fst = ranked edits :=
  List.mergeSort_zipIdx

/-- Each reported edit ranks before those that follow it. -/
theorem pairwise_rankedReports (edits : List Edit) :
    (rankedReports edits).Pairwise Reported.Before := by
  have hsorted : (rankedReports edits).Pairwise fun x y => List.zipIdxLE ranksAhead x y = true :=
    List.pairwise_mergeSort (List.zipIdxLE_trans ranksAhead_trans)
      (List.zipIdxLE_total ranksAhead_total) _
  -- No two edits are reported at one place.
  have hplaces : ((rankedReports edits).map Prod.snd).Nodup := by
    have hperm : (rankedReports edits).Perm edits.zipIdx := List.mergeSort_perm _ _
    rw [(hperm.map Prod.snd).nodup_iff, List.zipIdx_map_snd]
    exact List.nodup_range'
  exact (hsorted.and (List.pairwise_map.mp hplaces)).imp fun h =>
    Reported.before_of_zipIdxLE h.1 h.2

/-! ## The walk -/

/-- The walk of the selection, over edits with their places in the report. -/
def keepReports : Option Position → List Reported → List Reported
  | _, [] => []
  | none, x :: xs => x :: keepReports (some x.1.start) xs
  | some limit, x :: xs =>
    if x.1.stop ≤ limit then x :: keepReports (some x.1.start) xs else keepReports (some limit) xs

/-- Keeping reports keeps their edits. -/
theorem keepReports_map_fst (limit : Option Position) (xs : List Reported) :
    (keepReports limit xs).map Prod.fst = keepClear limit (xs.map Prod.fst) := by
  induction xs generalizing limit with
  | nil => cases limit <;> rfl
  | cons x xs ih =>
    cases limit with
    | none => rw [keepReports, List.map_cons, List.map_cons, keepClear, ih]
    | some limit =>
      rw [keepReports, List.map_cons, keepClear]
      split_ifs
      · rw [List.map_cons, ih]
      · exact ih _

/-- An edit ends behind a limit, if there is one. -/
def Behind (limit : Option Position) (x : Reported) : Prop :=
  ∃ l, limit = some l ∧ ¬ x.1.stop ≤ l

/-- What is kept of some ranked edits, of which none may end behind a limit. -/
structure Resolves (limit : Option Position) (xs kept : List Reported) : Prop where
  /-- The kept edits are some of the edits, in their order. -/
  sublist : kept.Sublist xs
  /-- No kept edit ends behind the limit. -/
  below : ∀ x ∈ kept, ¬ Behind limit x
  /-- Of any two kept edits, the one behind ends at or before the start of the one ahead. -/
  clear : kept.Pairwise fun x y => y.1.stop ≤ x.1.start
  /-- An edit that is not kept ends behind the limit or overlaps a kept edit that ranks before
  it. -/
  dropped : ∀ y ∈ xs, y ∉ kept → Behind limit y ∨ ∃ x ∈ kept, x.Before y ∧ y.1.Overlaps x.1

section Walk

variable {limit : Option Position} {x : Reported} {xs kept : List Reported}

/-- A report that ends behind the limit is not kept, -/
theorem keepReports_of_behind (h : Behind limit x) :
    keepReports limit (x :: xs) = keepReports limit xs := by
  obtain ⟨l, rfl, hstop⟩ := h
  exact if_neg hstop

/-- and one that does not is kept, and sets the limit. -/
theorem keepReports_of_not_behind (h : ¬ Behind limit x) :
    keepReports limit (x :: xs) = x :: keepReports (some x.1.start) xs := by
  cases limit with
  | none => rfl
  | some l => exact if_pos (by_contra fun hstop => h ⟨l, rfl, hstop⟩)

/-- An edit that comes first among ranked ones overlaps none that ranks before it. -/
theorem Resolves.behind_of_not_mem (h : Resolves limit (x :: xs) kept)
    (hranked : (x :: xs).Pairwise Reported.Before) (hx : x ∉ kept) : Behind limit x := by
  rcases h.dropped x List.mem_cons_self hx with hbehind | ⟨y, hy, hbefore, -⟩
  · exact hbehind
  · rcases List.mem_cons.mp (h.sublist.subset hy) with rfl | hmem
    · exact absurd hy hx
    · exact absurd hbefore ((List.pairwise_cons.mp hranked).1 y hmem).asymm

/-- Edits of which the first one is left out. -/
theorem resolves_cons_of_behind (hranked : (x :: xs).Pairwise Reported.Before)
    (hx : Behind limit x) : Resolves limit (x :: xs) kept ↔ Resolves limit xs kept := by
  constructor
  · intro h
    have hnot : x ∉ kept := fun hmem => h.below x hmem hx
    have hsublist : kept.Sublist xs := by
      cases h.sublist with
      | cons _ hsublist => exact hsublist
      | cons_cons _ _ => exact absurd List.mem_cons_self hnot
    exact ⟨hsublist, h.below, h.clear, fun y hy => h.dropped y (List.mem_cons_of_mem x hy)⟩
  · intro h
    refine ⟨h.sublist.cons x, h.below, h.clear, fun y hy hnot => ?_⟩
    rcases List.mem_cons.mp hy with rfl | hy
    · exact .inl hx
    · exact h.dropped y hy hnot

/-- Edits of which the first one is kept: its start is the limit from then on. -/
theorem resolves_cons_of_not_behind (hranked : (x :: xs).Pairwise Reported.Before)
    (hwf : ∀ y ∈ x :: xs, y.1.WellFormed) (hx : ¬ Behind limit x) :
    Resolves limit (x :: xs) kept ↔
      ∃ rest, kept = x :: rest ∧ Resolves (some x.1.start) xs rest := by
  obtain ⟨hfirst, hrest⟩ := List.pairwise_cons.mp hranked
  have hxwf : x.1.start ≤ x.1.stop := hwf x List.mem_cons_self
  have hnot : x ∉ xs := fun hmem => Reported.Before.irrefl x (hfirst x hmem)
  -- What ends behind the limit ends behind the start of the first edit too.
  have hlower : ∀ y, Behind limit y → Behind (some x.1.start) y := by
    rintro y ⟨l, hl, hy⟩
    have hstop : x.1.stop ≤ l := by_contra fun h => hx ⟨l, hl, h⟩
    exact ⟨_, rfl, fun h => hy (Position.le_trans h (Position.le_trans hxwf hstop))⟩
  constructor
  · intro h
    have hmem : x ∈ kept := by_contra fun hmem => hx (h.behind_of_not_mem hranked hmem)
    obtain ⟨rest, rfl, hsublist⟩ : ∃ rest, kept = x :: rest ∧ rest.Sublist xs := by
      cases h.sublist with
      | cons _ hsublist => exact absurd (hsublist.subset hmem) hnot
      | cons_cons _ hsublist => exact ⟨_, rfl, hsublist⟩
    obtain ⟨hclear, hpairwise⟩ := List.pairwise_cons.mp h.clear
    refine ⟨rest, rfl, hsublist, ?_, hpairwise, fun y hy hdropped => ?_⟩
    · rintro y hy ⟨_, ⟨⟩, hbehind⟩
      exact hbehind (hclear y hy)
    · have hother : y ∉ x :: rest := by
        rw [List.mem_cons, not_or]
        exact ⟨fun heq => hnot (heq ▸ hy), hdropped⟩
      rcases h.dropped y (List.mem_cons_of_mem x hy) hother with hbehind | ⟨z, hz, hzy, hoverlaps⟩
      · exact .inl (hlower y hbehind)
      · rcases List.mem_cons.mp hz with rfl | hz
        -- An edit that overlaps the first one ends behind its start.
        · exact .inl ⟨_, rfl, fun hle => not_overlaps_of_le hle hoverlaps.symm⟩
        · exact .inr ⟨z, hz, hzy, hoverlaps⟩
  · rintro ⟨rest, rfl, h⟩
    have hclear : ∀ y ∈ rest, y.1.stop ≤ x.1.start := fun y hy =>
      by_contra fun hle => h.below y hy ⟨_, rfl, hle⟩
    refine ⟨h.sublist.cons_cons x, fun y hy => ?_, List.pairwise_cons.mpr ⟨hclear, h.clear⟩,
      fun y hy hdropped => ?_⟩
    · rcases List.mem_cons.mp hy with rfl | hy
      · exact hx
      · exact fun hbehind => h.below y hy (hlower y hbehind)
    · rw [List.mem_cons, not_or] at hdropped
      have hy : y ∈ xs := (List.mem_cons.mp hy).resolve_left hdropped.1
      rcases h.dropped y hy hdropped.2 with ⟨_, ⟨⟩, hstop⟩ | ⟨z, hz, hzy, hoverlaps⟩
      · have hbefore := hfirst y hy
        exact .inr ⟨x, List.mem_cons_self, hbefore, overlaps_of_ranksAhead hbefore.ranksAhead
          (hwf y (List.mem_cons_of_mem x hy)) hstop⟩
      · exact .inr ⟨z, List.mem_cons_of_mem x hz, hzy, hoverlaps⟩

/-- Some edits resolve ranked ones exactly if they are those that the walk keeps. -/
theorem resolves_iff (hranked : xs.Pairwise Reported.Before) (hwf : ∀ y ∈ xs, y.1.WellFormed) :
    Resolves limit xs kept ↔ kept = keepReports limit xs := by
  induction xs generalizing limit kept with
  | nil =>
    have hnil : keepReports limit [] = [] := by cases limit <;> rfl
    rw [hnil]
    constructor
    · exact fun h => List.sublist_nil.mp h.sublist
    · rintro rfl
      exact ⟨.slnil, by simp, .nil, by simp⟩
  | cons x xs ih =>
    have hranked' := (List.pairwise_cons.mp hranked).2
    have hwf' : ∀ y ∈ xs, y.1.WellFormed := fun y hy => hwf y (List.mem_cons_of_mem x hy)
    by_cases hx : Behind limit x
    · rw [resolves_cons_of_behind hranked hx, keepReports_of_behind hx, ih hranked' hwf']
    · rw [resolves_cons_of_not_behind hranked hwf hx, keepReports_of_not_behind hx]
      simp only [ih hranked' hwf', exists_eq_right]

end Walk

/-! ## The selection -/

/-- A greedy selection resolves all ranked edits, without a limit. -/
theorem greedy_iff_resolves {edits : List Edit} {kept : List Reported} :
    Greedy edits kept ↔ Resolves none (rankedReports edits) kept := by
  have hnone : ∀ x, ¬ Behind none x := fun _ ⟨_, hlimit, _⟩ => nomatch hlimit
  constructor
  · intro h
    have hantisymm : Std.Antisymm Reported.Before := ⟨fun _ _ hxy hyx => absurd hyx hxy.asymm⟩
    have hnodup : kept.Nodup := by
      refine h.ranked.imp ?_
      rintro x _ hxx rfl
      exact Reported.Before.irrefl x hxx
    have hsubset : kept ⊆ rankedReports edits := fun x hx =>
      mem_rankedReports.mpr (h.reported x hx)
    refine ⟨?_, fun x _ => hnone x, h.clear, fun y hy hnot => ?_⟩
    -- Both lists are in rank order, which leaves only one order for the kept edits.
    · exact List.sublist_of_subperm_of_pairwise (List.subperm_of_subset hnodup hsubset) h.ranked
        (pairwise_rankedReports edits)
    · exact .inr (h.dropped y (mem_rankedReports.mp hy) hnot)
  · intro h
    refine ⟨fun x hx => mem_rankedReports.mp (h.sublist.subset hx),
      (pairwise_rankedReports edits).sublist h.sublist, h.clear, fun y hy hnot => ?_⟩
    exact (h.dropped y (mem_rankedReports.mpr hy) hnot).resolve_left (hnone y)

/-- The edits that are clear of each other below a limit are all kept. -/
theorem ClearBelow.keepClear_eq {limit : Position} {es : List Edit} (h : ClearBelow limit es) :
    keepClear (some limit) es = es := by
  induction es generalizing limit with
  | nil => rfl
  | cons e es ih => rw [keepClear, if_pos h.1, ih h.2]

/-- Selecting again changes nothing. -/
theorem select_select (edits : List Edit) : select (select edits) = select edits := by
  have hranked : (select edits).Pairwise fun a b => ranksAhead a b = true :=
    (pairwise_ranked edits).sublist (keepClear_sublist none _)
  rw [select.eq_1 (select edits), ranked, List.mergeSort_of_pairwise hranked]
  cases h : select edits with
  | nil => rfl
  | cons e es => rw [keepClear, (clearBelow_of_select_eq_cons h).keepClear_eq]

/-- The selected edits are the only greedy selection: some of the edits in rank order, each two
clear of each other, of which every other edit overlaps one that ranks before it. So an edit that
only touches the other selected ones is selected, of some edits at least one is selected, and
selecting again changes nothing. -/
theorem select_greedy (edits : List Edit) (hedits : ∀ e ∈ edits, e.WellFormed) :
    (∃ kept, select edits = kept.map Prod.fst ∧ (∀ kept', Greedy edits kept' ↔ kept' = kept) ∧
      ∀ y ∈ edits.zipIdx,
        (∀ x ∈ kept, x ≠ y → y.1.stop ≤ x.1.start ∨ x.1.stop ≤ y.1.start) → y ∈ kept) ∧
    (select edits).Subperm edits ∧ (select edits = [] ↔ edits = []) ∧
    select (select edits) = select edits := by
  have hwf : ∀ x ∈ rankedReports edits, x.1.WellFormed := fun x hx =>
    hedits x.1 (List.fst_mem_of_mem_zipIdx (mem_rankedReports.mp hx))
  have hgreedy : ∀ kept', Greedy edits kept' ↔ kept' = keepReports none (rankedReports edits) :=
    fun _ => greedy_iff_resolves.trans (resolves_iff (pairwise_rankedReports edits) hwf)
  refine ⟨⟨keepReports none (rankedReports edits), ?_, hgreedy, fun y hy hclear => ?_⟩, ?_,
    select_eq_nil_iff, select_select edits⟩
  · rw [keepReports_map_fst, rankedReports_map_fst, select]
  · by_contra hnot
    obtain ⟨x, hx, -, hoverlaps⟩ := ((hgreedy _).mpr rfl).dropped y hy hnot
    rcases hclear x hx (fun heq => hnot (heq ▸ hx)) with hle | hle
    · exact not_overlaps_of_le hle hoverlaps.symm
    · exact not_overlaps_of_le hle hoverlaps
  · exact (List.sublist_append_left _ _).subperm.trans (select_append_deferred_perm edits).subperm

/-- Two insertions at the ends of a replacement and one inside it, and the replacement twice. -/
def touchingEdits : List Edit :=
  [⟨⟨0, 1⟩, ⟨0, 4⟩, "body"⟩, .insertion ⟨0, 4⟩ ";", ⟨⟨0, 1⟩, ⟨0, 4⟩, "body"⟩,
    .insertion ⟨0, 2⟩ "in", .insertion ⟨0, 1⟩ "("]

/-- Three edits that touch one another are all selected. -/
theorem select_greedy_touchingEdits :
    let kept := [.insertion ⟨0, 4⟩ ";", ⟨⟨0, 1⟩, ⟨0, 4⟩, "body"⟩, .insertion ⟨0, 1⟩ "("]
    (∀ e ∈ touchingEdits, e.WellFormed) ∧
      (∃ reports, Greedy touchingEdits reports ∧ reports.map Prod.fst = kept) ∧
      kept.Subperm touchingEdits ∧ select kept = kept := by
  intro kept
  have hwf : ∀ e ∈ touchingEdits, e.WellFormed := by decide
  have hkept : select touchingEdits = kept := by cbv
  obtain ⟨⟨reports, hreports, hgreedy, -⟩, hsubperm, -, hagain⟩ := select_greedy touchingEdits hwf
  rw [hkept] at hreports hsubperm hagain
  exact ⟨hwf, ⟨reports, (hgreedy reports).mpr rfl, hreports.symm⟩, hsubperm, hagain⟩

end Fettle.Fix
