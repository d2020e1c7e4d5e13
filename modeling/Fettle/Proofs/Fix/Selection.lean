import Fettle.Fix.Selection
import Mathlib.Data.List.Basic

/-!
# What a selection keeps

The selection keeps edits of the list that it is given, each clear of the one kept before it, and
edits at one place in the order in which they are reported.
-/

namespace Fettle.Fix

/-! ## Ranks -/

/-- An edit ranks ahead of another if it ends later, or at the same place and starts no earlier. -/
theorem ranksAhead_iff {a b : Edit} : ranksAhead a b = true ↔
    b.stop < a.stop ∨ b.stop = a.stop ∧ b.start ≤ a.start := by
  simp [ranksAhead]

/-- Of two edits one ranks ahead. -/
theorem ranksAhead_total (a b : Edit) : (ranksAhead a b || ranksAhead b a) = true := by
  rw [Bool.or_eq_true, ranksAhead_iff, ranksAhead_iff]
  simp only [Position.lt_def, Position.le_def, Position.ext_iff]
  omega

/-- Ranking ahead is transitive. -/
theorem ranksAhead_trans (a b c : Edit) (hab : ranksAhead a b = true)
    (hbc : ranksAhead b c = true) : ranksAhead a c = true := by
  rw [ranksAhead_iff] at *
  simp only [Position.lt_def, Position.le_def, Position.ext_iff] at *
  omega

/-- Ranking keeps every edit. -/
theorem ranked_perm (edits : List Edit) : (ranked edits).Perm edits :=
  List.mergeSort_perm _ _

/-- Ranked edits stand in rank order. -/
theorem pairwise_ranked (edits : List Edit) :
    (ranked edits).Pairwise fun a b => ranksAhead a b = true :=
  List.pairwise_mergeSort ranksAhead_trans ranksAhead_total edits

/-- Ranking keeps the order of the edits at one place. -/
theorem filter_ranked (edits : List Edit) (p : Position) :
    (ranked edits).filter (fun e => e.start = p ∧ e.stop = p) =
      edits.filter fun e => e.start = p ∧ e.stop = p := by
  have hpairwise : (edits.filter fun e => e.start = p ∧ e.stop = p).Pairwise
      fun a b => ranksAhead a b = true := by
    rw [List.pairwise_iff_forall_sublist]
    intro a b hab
    have ha := (List.mem_filter.mp (hab.subset List.mem_cons_self)).2
    have hb := (List.mem_filter.mp (hab.subset (List.mem_cons_of_mem _ List.mem_cons_self))).2
    simp only [decide_eq_true_eq] at ha hb
    rw [ranksAhead_iff, ha.1, ha.2, hb.1, hb.2]
    exact .inr ⟨rfl, Position.le_refl p⟩
  -- They are ranked already, so the sort, which is stable, leaves them in their order.
  have hsublist := (List.sublist_mergeSort ranksAhead_trans ranksAhead_total hpairwise
    (List.filter_sublist)).filter fun e : Edit => e.start = p ∧ e.stop = p
  rw [List.filter_filter] at hsublist
  simp only [Bool.and_self] at hsublist
  have hperm := (List.mergeSort_perm edits ranksAhead).filter
    fun e : Edit => e.start = p ∧ e.stop = p
  exact (hsublist.eq_of_length hperm.length_eq.symm).symm

/-! ## What is kept -/

/-- Edits are clear of each other below a position, from the end of the text to its beginning: each
ends at or before the start of the one before it, and the first at or before the position. -/
def ClearBelow : Position → List Edit → Prop
  | _, [] => True
  | limit, e :: es => e.stop ≤ limit ∧ ClearBelow e.start es

/-- What is kept from a ranked list keeps its order. -/
theorem keepClear_sublist (limit : Option Position) (es : List Edit) :
    (keepClear limit es).Sublist es := by
  induction es generalizing limit with
  | nil => cases limit <;> exact List.Sublist.slnil
  | cons e es ih =>
    cases limit with
    | none => exact (ih _).cons_cons e
    | some limit =>
      unfold keepClear
      split_ifs
      · exact (ih _).cons_cons e
      · exact (ih _).cons e

/-- What is kept below a limit is clear of it. -/
theorem clearBelow_keepClear (limit : Position) (es : List Edit) :
    ClearBelow limit (keepClear (some limit) es) := by
  -- The limit moves to the start of each edit that is kept.
  induction es generalizing limit with
  | nil => trivial
  | cons e es ih =>
    unfold keepClear
    split_ifs with h
    · exact ⟨h, ih e.start⟩
    · exact ih limit

/-- A selected edit is one of the edits. -/
theorem mem_of_mem_select {e : Edit} {edits : List Edit} (h : e ∈ select edits) : e ∈ edits :=
  List.mem_mergeSort.mp ((keepClear_sublist none (ranked edits)).subset h)

/-- Of some edits at least one is selected. -/
theorem select_eq_nil_iff {edits : List Edit} : select edits = [] ↔ edits = [] := by
  constructor
  -- The edit that ranks first meets no limit, so it is kept.
  · intro h
    cases hr : ranked edits with
    | nil => exact List.length_eq_zero_iff.mp (by rw [← List.length_mergeSort, ← ranked, hr]; rfl)
    | cons e es =>
      rw [select, hr] at h
      cases h
  · rintro rfl
    rw [select, ranked, List.mergeSort_nil]
    rfl

/-- The selected edits are clear of each other. -/
theorem clearBelow_of_select_eq_cons {edits es : List Edit} {e : Edit}
    (h : select edits = e :: es) : ClearBelow e.start es := by
  unfold select at h
  cases hr : ranked edits with
  | nil => rw [hr] at h; cases h
  | cons e' es' =>
    rw [hr, keepClear, List.cons.injEq] at h
    obtain ⟨rfl, rfl⟩ := h
    exact clearBelow_keepClear _ _

/-- Selected edits at one place are in the order in which they are reported. -/
theorem filter_select_sublist (edits : List Edit) (p : Position) :
    ((select edits).filter fun e => e.start = p ∧ e.stop = p).Sublist edits := by
  have hkept := (keepClear_sublist none (ranked edits)).filter
    fun e : Edit => e.start = p ∧ e.stop = p
  rw [filter_ranked] at hkept
  exact hkept.trans List.filter_sublist

end Fettle.Fix
