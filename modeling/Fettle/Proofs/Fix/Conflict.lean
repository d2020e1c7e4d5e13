import Fettle.Proofs.Fix.Selection
import Fettle.Proofs.Pipeline.Inadmissible

/-!
# Fixes that lose conflicts

The edits that a pass leaves for later are those that are not selected (`deferred`). Each of them
overlaps a selected edit that ranks ahead of it, and selected edits do not overlap each other. So a
fix whose own edits do not overlap loses exactly those of its edits that overlap selected edits of
other fixes (`mem_select_iff_not_loses`). The edits of a fix are taken one by one: a fix that loses
some of its edits and not all of them is applied in part, and `whole_or_none_iff` says that this is
the only way in which a fix is neither applied as a whole nor left as a whole.
-/

namespace Fettle

/-- Two edits overlap if each begins before the other ends. -/
def Edit.Overlaps (a b : Edit) : Prop := a.start < b.stop ∧ b.start < a.stop

instance (a b : Edit) : Decidable (a.Overlaps b) :=
  inferInstanceAs (Decidable (a.start < b.stop ∧ b.start < a.stop))

/-- Overlapping is mutual. -/
theorem Edit.Overlaps.symm {a b : Edit} (h : a.Overlaps b) : b.Overlaps a := ⟨h.2, h.1⟩

namespace Fix

/-! ## What is left for later -/

/-- The edits that `keepClear` does not keep. -/
def leaveOut : Option Position → List Edit → List Edit
  | _, [] => []
  | none, e :: es => leaveOut (some e.start) es
  | some limit, e :: es =>
    if e.stop ≤ limit then leaveOut (some e.start) es else e :: leaveOut (some limit) es

/-- The edits of a list that are not selected, in rank order. -/
def deferred (edits : List Edit) : List Edit := leaveOut none (ranked edits)

/-- Every edit is kept or left out. -/
theorem keepClear_append_leaveOut_perm (limit : Option Position) (es : List Edit) :
    (keepClear limit es ++ leaveOut limit es).Perm es := by
  induction es generalizing limit with
  | nil => cases limit <;> exact .refl _
  | cons e es ih =>
    cases limit with
    | none => exact (ih _).cons e
    | some limit =>
      unfold keepClear leaveOut
      split_ifs
      · exact (ih _).cons e
      · exact List.perm_middle.trans ((ih _).cons e)

/-- Every edit is selected or left for later. -/
theorem select_append_deferred_perm (edits : List Edit) :
    (select edits ++ deferred edits).Perm edits :=
  (keepClear_append_leaveOut_perm none _).trans (ranked_perm edits)

/-- An edit that ends behind the start of an edit that ranks ahead of it overlaps that edit. -/
theorem overlaps_of_ranksAhead {f e : Edit} (hrank : ranksAhead f e = true) (he : e.WellFormed)
    (hstop : ¬ e.stop ≤ f.start) : e.Overlaps f := by
  rw [ranksAhead_iff] at hrank
  unfold Edit.WellFormed at he
  unfold Edit.Overlaps
  simp only [Position.lt_def, Position.le_def, Position.ext_iff] at *
  omega

/-- An edit that is left out overlaps the edit that sets the limit or one that is kept. -/
theorem exists_overlaps_of_mem_leaveOut {f : Edit} {es : List Edit}
    (hranked : (f :: es).Pairwise fun a b => ranksAhead a b = true)
    (hes : ∀ e ∈ es, e.WellFormed) {e : Edit} (he : e ∈ leaveOut (some f.start) es) :
    ∃ g ∈ f :: keepClear (some f.start) es, ranksAhead g e = true ∧ e.Overlaps g := by
  -- The edit that sets the limit changes whenever an edit is kept.
  induction es generalizing f with
  | nil => cases he
  | cons x es ih =>
    obtain ⟨hf, hrest⟩ := List.pairwise_cons.mp hranked
    have hes' : ∀ e ∈ es, e.WellFormed := fun e he => hes e (List.mem_cons_of_mem x he)
    unfold leaveOut at he
    unfold keepClear
    split_ifs at he ⊢ with hstop
    · obtain ⟨g, hg, h⟩ := ih hrest hes' he
      exact ⟨g, List.mem_cons_of_mem f hg, h⟩
    · rcases List.mem_cons.mp he with rfl | he
      · have hrank := hf e List.mem_cons_self
        exact ⟨f, List.mem_cons_self, hrank,
          overlaps_of_ranksAhead hrank (hes e List.mem_cons_self) hstop⟩
      · exact ih (List.pairwise_cons.mpr
          ⟨fun y hy => hf y (List.mem_cons_of_mem x hy), (List.pairwise_cons.mp hrest).2⟩) hes' he

/-- An edit that ends at or before the start of another does not overlap it. -/
theorem not_overlaps_of_le {a b : Edit} (h : b.stop ≤ a.start) : ¬ a.Overlaps b := by
  unfold Edit.Overlaps
  simp only [Position.lt_def, Position.le_def] at *
  omega

/-- Edits that are clear of each other, one after another, are clear of each other pair by pair. -/
theorem ClearBelow.pairwise {limit : Position} {es : List Edit} (h : ClearBelow limit es)
    (hes : ∀ e ∈ es, e.WellFormed) :
    (∀ e ∈ es, e.stop ≤ limit) ∧ es.Pairwise fun a b => b.stop ≤ a.start := by
  induction es generalizing limit with
  | nil => exact ⟨fun e he => absurd he List.not_mem_nil, .nil⟩
  | cons e es ih =>
    obtain ⟨hstop, hrest⟩ := h
    obtain ⟨hlimit, hpairwise⟩ := ih hrest fun e he => hes e (List.mem_cons_of_mem _ he)
    refine ⟨fun f hf => ?_, List.pairwise_cons.mpr ⟨hlimit, hpairwise⟩⟩
    rcases List.mem_cons.mp hf with rfl | hf
    · exact hstop
    · exact Position.le_trans (hlimit f hf)
        (Position.le_trans (hes e List.mem_cons_self) hstop)

section

variable {edits : List Edit} (hedits : ∀ e ∈ edits, e.WellFormed)
include hedits

/-- An edit that is left for later overlaps a selected edit that ranks ahead of it. -/
theorem exists_overlaps_of_mem_deferred {e : Edit} (he : e ∈ deferred edits) :
    ∃ f ∈ select edits, ranksAhead f e = true ∧ e.Overlaps f := by
  have hranked := pairwise_ranked edits
  have hwf : ∀ e ∈ ranked edits, e.WellFormed := fun e he => hedits e ((ranked_perm edits).mem_iff.mp he)
  unfold deferred at he
  unfold select
  generalize ranked edits = es at hranked hwf he ⊢
  cases es with
  | nil => cases he
  | cons f es =>
    exact exists_overlaps_of_mem_leaveOut hranked (fun e he => hwf e (List.mem_cons_of_mem f he)) he

/-- Selected edits do not overlap each other. -/
theorem pairwise_select : (select edits).Pairwise fun a b => ¬ a.Overlaps b := by
  have hwf : ∀ e ∈ select edits, e.WellFormed := fun e he => hedits e (mem_of_mem_select he)
  cases h : select edits with
  | nil => exact .nil
  | cons e es =>
    rw [h] at hwf
    obtain ⟨hlimit, hpairwise⟩ := (clearBelow_of_select_eq_cons h).pairwise
      fun e he => hwf e (List.mem_cons_of_mem _ he)
    exact List.pairwise_cons.mpr
      ⟨fun f hf => not_overlaps_of_le (hlimit f hf), hpairwise.imp not_overlaps_of_le⟩

/-- Different selected edits do not overlap. -/
theorem not_overlaps_of_mem_select {e f : Edit} (he : e ∈ select edits) (hf : f ∈ select edits)
    (hne : e ≠ f) : ¬ e.Overlaps f := by
  have hpairwise := pairwise_select hedits
  have hsymm : Std.Symm fun a b : Edit => ¬ a.Overlaps b := ⟨fun _ _ h h' => h h'.symm⟩
  exact hpairwise.forall he hf hne

end

/-! ## The edits of one fix -/

/-- The edits of a fix fit together: each is well formed, and they do not overlap each other. -/
structure Coherent (d : Diagnostic) : Prop where
  /-- Every edit is well formed. -/
  wellFormed : ∀ e ∈ d.edits, e.WellFormed
  /-- No two edits overlap. -/
  apart : d.edits.Pairwise fun a b => ¬ a.Overlaps b

/-- An edit of a fix loses if it overlaps a selected edit that is not one of the fix. -/
def Loses (kept : List Edit) (d : Diagnostic) (e : Edit) : Prop :=
  ∃ f ∈ kept, f ∉ d.edits ∧ e.Overlaps f

instance (kept : List Edit) (d : Diagnostic) (e : Edit) : Decidable (Loses kept d e) :=
  inferInstanceAs (Decidable (∃ f ∈ kept, f ∉ d.edits ∧ e.Overlaps f))

/-- Admissible edits are well formed. -/
theorem wellFormed_of_mem_admissible {report : List Diagnostic} {allowList : List String} {e : Edit}
    (he : e ∈ admissible report allowList) : e.WellFormed := by
  obtain ⟨d, -, he⟩ := List.mem_flatMap.mp he
  exact of_decide_eq_true (List.mem_filter.mp he).2

section

variable {report : List Diagnostic} {allowList : List String} {d : Diagnostic}
  (hd : d ∈ report) (hadmitted : Admitted allowList d) (hcoherent : Coherent d)
include hd hadmitted hcoherent

/-- All edits of an admitted fix are admissible, each as often as the fix has it. -/
theorem edits_sublist_admissible : d.edits.Sublist (admissible report allowList) := by
  have hmem : d ∈ report.filter (isAdmitted allowList) :=
    List.mem_filter.mpr ⟨hd, isAdmitted_iff.mpr hadmitted⟩
  have hall : d.edits.filter (fun e => e.WellFormed) = d.edits :=
    List.filter_eq_self.mpr fun e he => decide_eq_true (hcoherent.wellFormed e he)
  have hsublist := (List.singleton_sublist.mpr hmem).flatMap
    fun d : Diagnostic => d.edits.filter fun e => e.WellFormed
  rwa [List.flatMap_singleton, hall] at hsublist

omit hd hadmitted in
/-- An edit of a fix is left for later only if it loses or an equal edit is selected. -/
theorem loses_of_mem_deferred {e : Edit} (he : e ∈ d.edits)
    (hdeferred : e ∈ deferred (admissible report allowList)) :
    Loses (select (admissible report allowList)) d e ∨
      e ∈ select (admissible report allowList) ∧ e.Overlaps e := by
  obtain ⟨f, hf, -, hoverlaps⟩ :=
    exists_overlaps_of_mem_deferred (fun _ => wellFormed_of_mem_admissible) hdeferred
  by_cases hown : f ∈ d.edits
  · -- The fix has no other edit that overlaps this one.
    have hsymm : Std.Symm fun a b : Edit => ¬ a.Overlaps b := ⟨fun _ _ h h' => h h'.symm⟩
    by_cases hne : e = f
    · obtain rfl := hne
      exact .inr ⟨hf, hoverlaps⟩
    · exact absurd hoverlaps (hcoherent.apart.forall he hown hne)
  · exact .inl ⟨f, hf, hown, hoverlaps⟩

/-- An edit of a fix is selected if it does not lose. -/
theorem mem_select_iff_not_loses {e : Edit} (he : e ∈ d.edits) :
    e ∈ select (admissible report allowList) ↔
      ¬ Loses (select (admissible report allowList)) d e := by
  constructor
  · rintro hkept ⟨f, hf, hother, hoverlaps⟩
    have hne : e ≠ f := by
      rintro rfl
      exact hother he
    exact not_overlaps_of_mem_select (fun _ => wellFormed_of_mem_admissible) hkept hf hne hoverlaps
  · intro hloses
    have hmem := (edits_sublist_admissible hd hadmitted hcoherent).subset he
    rw [← (select_append_deferred_perm _).mem_iff, List.mem_append] at hmem
    rcases hmem with hkept | hdeferred
    · exact hkept
    · rcases loses_of_mem_deferred hcoherent he hdeferred with h | ⟨hkept, -⟩
      · exact absurd h hloses
      · exact hkept

/-- If no edit of a fix loses, all of them are selected, each as often as the fix has it. -/
theorem edits_subperm_select (h : ∀ e ∈ d.edits, ¬ Loses (select (admissible report allowList)) d e) :
    d.edits.Subperm (select (admissible report allowList)) := by
  rw [List.subperm_ext_iff]
  intro e he
  have hkept := (mem_select_iff_not_loses hd hadmitted hcoherent he).mpr (h e he)
  by_cases hself : e.Overlaps e
  · -- Such an edit stands in the fix only once.
    have hapart := hcoherent.apart
    have hone : d.edits.count e ≤ 1 := by
      by_contra htwo
      have hsublist := List.replicate_sublist_iff.mpr (Nat.lt_of_not_le htwo)
      exact (List.pairwise_cons.mp (hapart.sublist hsublist)).1 e List.mem_cons_self hself
    exact Nat.le_trans hone (List.count_pos_iff.mpr hkept)
  · -- No edit like this one is left for later.
    have hnone : e ∉ deferred (admissible report allowList) := by
      intro hdeferred
      rcases loses_of_mem_deferred hcoherent he hdeferred with h' | ⟨-, h'⟩
      · exact h e he h'
      · exact hself h'
    have hcount := (select_append_deferred_perm (admissible report allowList)).count_eq e
    rw [List.count_append, List.count_eq_zero_of_not_mem hnone, Nat.add_zero] at hcount
    rw [hcount]
    exact (edits_sublist_admissible hd hadmitted hcoherent).count_le e

end

/-- The fix of a finding on the text `import six\nprint(six.text_type(x))\n`: the import goes, and
the name that it was needed for is replaced. -/
def compatibility : Diagnostic where
  ruleCode := some "UP016"
  edits := [.deletion ⟨0, 0⟩ ⟨1, 0⟩, ⟨⟨1, 6⟩, ⟨1, 19⟩, "str"⟩]
  applicability := some .safe

/-- The fix of another finding on that text: the call is replaced by one that ends where it ends,
and still needs the import. -/
def literal : Diagnostic where
  ruleCode := some "UP018"
  edits := [⟨⟨1, 6⟩, ⟨1, 22⟩, "six.u(x)"⟩]
  applicability := some .safe

end Fix

end Fettle
