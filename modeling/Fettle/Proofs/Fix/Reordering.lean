import Fettle.Proofs.Fix.Lockstep
import Fettle.Proofs.Fix.Selection
import Mathlib

/-!
# The order of a report

A report may list its findings, and the edits of each finding, in another order (`Reordered`).
Ranking sorts the edits by their spans, so the order of the report is seen among edits of equal
spans only, and the selection looks at nothing but spans. The selected spans are therefore the same,
and so are the selected edits if equal spans have equal contents (`SpansDecide`).
`run_eq_of_reordered` carries this through a pass and through whole runs.
-/

namespace Fettle

/-- The positions between which an edit replaces. -/
def Edit.span (e : Edit) : Position × Position := (e.start, e.stop)

namespace Fix

/-! ## Reports in another order -/

/-- Two diagnostics differ at most in the order of their edits. -/
structure SameButOrder (d d' : Diagnostic) : Prop where
  /-- All other parts are the same. -/
  rest : d' = { d with edits := d'.edits }
  /-- The edits are the same in some order. -/
  edits : d.edits.Perm d'.edits

/-- Two reports differ at most in the order of their diagnostics and of the edits of each
diagnostic. -/
def Reordered (report report' : List Diagnostic) : Prop :=
  ∃ between, report.Perm between ∧ List.Forall₂ SameButOrder between report'

/-- The order of its edits makes no difference to whether a diagnostic is admitted. -/
theorem SameButOrder.isAdmitted_eq {d d' : Diagnostic} (h : SameButOrder d d')
    (allowList : List String) : isAdmitted allowList d' = isAdmitted allowList d := by
  rw [h.rest]
  rfl

/-- The admissible edits of a reordered report are the same in some order. -/
theorem Reordered.admissible_perm {report report' : List Diagnostic} (h : Reordered report report')
    (allowList : List String) :
    (admissible report allowList).Perm (admissible report' allowList) := by
  obtain ⟨between, hperm, hsame⟩ := h
  refine ((hperm.filter _).flatMap_right _).trans ?_
  clear hperm
  -- Diagnostic by diagnostic: both are admitted or none is, and their edits are permuted.
  induction hsame with
  | nil => exact .refl _
  | @cons d d' ds ds' hd hds ih =>
    rw [admissible] at ih ⊢
    rw [List.filter_cons, List.filter_cons, hd.isAdmitted_eq]
    split
    · rw [List.flatMap_cons, List.flatMap_cons]
      exact (hd.edits.filter _).append ih
    · exact ih

/-! ## Ranking looks at spans -/

/-- Edits that rank ahead of each other have the same span. -/
theorem span_eq_of_ranksAhead {a b : Edit} (hab : ranksAhead a b = true)
    (hba : ranksAhead b a = true) : a.span = b.span := by
  rw [ranksAhead_iff] at hab hba
  simp only [Position.lt_def, Position.le_def, Position.ext_iff] at hab hba
  rw [Edit.span, Edit.span, Prod.mk.injEq, Position.ext_iff, Position.ext_iff]
  omega

/-- The ranked spans do not depend on the order of the edits. -/
theorem ranked_map_span {a b : List Edit} (h : a.Perm b) :
    (ranked a).map Edit.span = (ranked b).map Edit.span := by
  have hperm : ((ranked a).map Edit.span).Perm ((ranked b).map Edit.span) :=
    ((ranked_perm a).trans (h.trans (ranked_perm b).symm)).map _
  -- The rank of an edit is the rank of its span, and spans rank in one order only.
  have hpairwise : ∀ es : List Edit, ((ranked es).map Edit.span).Pairwise fun s t =>
      ranksAhead ⟨s.1, s.2, ""⟩ ⟨t.1, t.2, ""⟩ = true :=
    fun es => (pairwise_ranked es).map Edit.span fun _ _ h => h
  refine hperm.eq_of_pairwise ?_ (hpairwise a) (hpairwise b)
  intro s t _ _ hst hts
  have hspan := span_eq_of_ranksAhead hst hts
  exact hspan

/-- Edits with the same span have the same content. -/
def SpansDecide (edits : List Edit) : Prop :=
  ∀ a ∈ edits, ∀ b ∈ edits, a.start = b.start → a.stop = b.stop → a.content = b.content

instance (edits : List Edit) : Decidable (SpansDecide edits) :=
  inferInstanceAs (Decidable (∀ a ∈ edits, ∀ b ∈ edits, _ → _ → _))

/-- If spans decide, the ranked edits do not depend on the order of the edits. -/
theorem ranked_eq_of_perm {a b : List Edit} (h : a.Perm b) (hdecide : SpansDecide a) :
    ranked a = ranked b := by
  have hperm : (ranked a).Perm (ranked b) := (ranked_perm a).trans (h.trans (ranked_perm b).symm)
  refine hperm.eq_of_pairwise ?_ (pairwise_ranked a) (pairwise_ranked b)
  intro e e' he he' hee' he'e
  have hspan := span_eq_of_ranksAhead hee' he'e
  obtain ⟨hstart, hstop⟩ := Prod.mk.inj hspan
  have hcontent := hdecide e ((ranked_perm a).mem_iff.mp he) e'
    (h.mem_iff.mpr ((ranked_perm b).mem_iff.mp he')) hstart hstop
  cases e
  cases e'
  rw [Edit.mk.injEq]
  exact ⟨hstart, hstop, hcontent⟩

/-! ## Selecting looks at spans -/

/-- Which spans are kept depends on the spans only. -/
theorem keepClear_map_span {a b : List Edit} (h : a.map Edit.span = b.map Edit.span)
    (limit : Option Position) :
    (keepClear limit a).map Edit.span = (keepClear limit b).map Edit.span := by
  induction a generalizing b limit with
  | nil =>
    rw [List.map_nil] at h
    rw [List.map_eq_nil_iff.mp h.symm]
  | cons e es ih =>
    cases b with
    | nil => cases h
    | cons f fs =>
      obtain ⟨hspan, hrest⟩ := List.cons.inj h
      obtain ⟨hstart, hstop⟩ := Prod.mk.inj hspan
      -- The two edits meet the limit together, and leave the same limit.
      have hkeep : (e :: keepClear (some e.start) es).map Edit.span =
          (f :: keepClear (some f.start) fs).map Edit.span := by
        rw [List.map_cons, List.map_cons, hspan, hstart, ih hrest]
      cases limit with
      | none => exact hkeep
      | some limit =>
        unfold keepClear
        rw [hstop]
        split
        · exact hkeep
        · exact ih hrest _

/-- The spans of the selected edits do not depend on the order of the edits. -/
theorem select_map_span {a b : List Edit} (h : a.Perm b) :
    (select a).map Edit.span = (select b).map Edit.span :=
  keepClear_map_span (ranked_map_span h) none

/-- Where spans decide, the order of the report makes no difference to what is selected. -/
theorem select_eq_of_perm {a b : List Edit} (h : a.Perm b) (hdecide : SpansDecide a) :
    select a = select b := by
  rw [select, select, ranked_eq_of_perm h hdecide]

/-- Otherwise the order is seen: contents at one place are inserted in the order of the report. -/
example : select [.insertion ⟨0, 0⟩ "y", .insertion ⟨0, 0⟩ "x"] =
    [.insertion ⟨0, 0⟩ "y", .insertion ⟨0, 0⟩ "x"] := by
  cbv

/-! ## Passes and runs -/

section

variable {report report' : List Diagnostic} {allowList : List String}

/-- A pass applies as many edits of a reordered report. -/
theorem Reordered.runPass_applied (h : Reordered report report') (text : String) :
    (runPass text report allowList).applied = (runPass text report' allowList).applied := by
  have hspans := congrArg List.length (select_map_span (h.admissible_perm allowList))
  rwa [List.length_map, List.length_map] at hspans

/-- If spans decide, a pass does not depend on the order of the report. -/
theorem Reordered.runPass_eq (h : Reordered report report') (text : String)
    (hdecide : SpansDecide (admissible report allowList)) :
    runPass text report allowList = runPass text report' allowList := by
  rw [runPass, runPass, select_eq_of_perm (h.admissible_perm allowList) hdecide]

end

/-- The order of a report is not seen in the number and the spans of the edits that a pass applies,
and not in its text either if spans decide. Two sources that are functions of the text and report
the same in different orders, so that spans decide, therefore lead to the same result. -/
theorem run_eq_of_reordered :
    (∀ (text : String) (allowList : List String) (report report' : List Diagnostic),
      Reordered report report' →
      (select (admissible report allowList)).map Edit.span =
        (select (admissible report' allowList)).map Edit.span ∧
      (runPass text report allowList).applied = (runPass text report' allowList).applied ∧
      (SpansDecide (admissible report allowList) →
        (runPass text report allowList).text = (runPass text report' allowList).text)) ∧
    ∀ {ε σ τ : Type} (allowList : List String) (s₁ : Source ε σ) (s₂ : Source ε τ)
      (report₁ report₂ : String → Except ε (List Diagnostic)),
      s₁.AnswersBy report₁ → s₂.AnswersBy report₂ →
      (∀ text, ResultsAgree Reordered (report₁ text) (report₂ text)) →
      (∀ text report, report₁ text = .ok report → SpansDecide (admissible report allowList)) →
      ∀ (maxPasses : ℕ) (initial : String) (m₁ : σ) (m₂ : τ),
        (converge s₁ allowList maxPasses initial m₁).1 =
          (converge s₂ allowList maxPasses initial m₂).1 := by
  refine ⟨?_, ?_⟩
  · intro text allowList report report' h
    exact ⟨select_map_span (h.admissible_perm allowList), h.runPass_applied text,
      fun hdecide => by rw [h.runPass_eq text hdecide]⟩
  · intro ε σ τ allowList s₁ s₂ report₁ report₂ h₁ h₂ hreport hdecide maxPasses initial m₁ m₂
    -- The results agree as soon as one pass over every text does.
    refine h₁.converge_result_eq h₂ (fun text => ?_) maxPasses initial m₁ m₂
    have hagree := hreport text
    have hspans := hdecide text
    generalize report₁ text = answer₁ at hagree hspans
    generalize report₂ text = answer₂ at hagree
    cases hagree with
    | ok h => exact .ok (h.runPass_eq text (hspans _ rfl))
    | error e => exact .error e

/-- Findings on the text `ab`: two insertions of the same content at one place, the same replacement
twice, another one, and a fix that is not safe. -/
def sameSpans : List Diagnostic :=
  [{ ruleCode := some "F401", edits := [.insertion ⟨0, 1⟩ "x", ⟨⟨0, 0⟩, ⟨0, 1⟩, "b"⟩] },
    { ruleCode := some "F841", edits := [⟨⟨0, 0⟩, ⟨0, 2⟩, "no"⟩],
      applicability := some .hazardous },
    { ruleCode := some "I001",
      edits := [⟨⟨0, 1⟩, ⟨0, 2⟩, "cc"⟩, ⟨⟨0, 0⟩, ⟨0, 1⟩, "b"⟩, .insertion ⟨0, 1⟩ "x"] }]

/-- A source that reports findings on the text `ab`, or fails on a blank text. -/
def reporting (findings : List Diagnostic) (text : String) : Except String (List Diagnostic) :=
  if text = "ab" then .ok findings else if text = "" then .error "blank" else .ok []

/-- Reversed findings lead to the same text, although edits with the same span are among them. -/
theorem run_eq_of_reordered_sameSpans :
    let reversed := (sameSpans.map fun d => { d with edits := d.edits.reverse }).reverse
    Reordered sameSpans reversed ∧ SpansDecide (admissible sameSpans ["F", "I"]) ∧
      (runPass "ab" sameSpans ["F", "I"]).text = (runPass "ab" reversed ["F", "I"]).text ∧
      (runPass "ab" sameSpans ["F", "I"]).text = "bxxcc" ∧
      (converge (fun text asked => (reporting sameSpans text, asked + 1)) ["F", "I"] 9 "ab" 0).1 =
        (converge (fun text _ => (reporting reversed text, ())) ["F", "I"] 9 "ab" ()).1 := by
  intro reversed
  have hreordered : Reordered sameSpans reversed := by
    refine ⟨sameSpans.reverse, (List.reverse_perm _).symm, ?_⟩
    exact .cons ⟨rfl, (List.reverse_perm _).symm⟩ (.cons ⟨rfl, (List.reverse_perm _).symm⟩
      (.cons ⟨rfl, (List.reverse_perm _).symm⟩ .nil))
  have hdecide : SpansDecide (admissible sameSpans ["F", "I"]) := by decide
  refine ⟨hreordered, hdecide, (run_eq_of_reordered.1 "ab" _ _ _ hreordered).2.2 hdecide, by cbv,
    run_eq_of_reordered.2 ["F", "I"] _ _ (reporting sameSpans) (reporting reversed)
      (fun _ _ => rfl) (fun _ _ => rfl) ?_ ?_ 9 "ab" 0 ()⟩
  · intro text
    unfold reporting
    split_ifs
    · exact .ok hreordered
    · exact .error _
    · exact .ok ⟨[], .refl _, .nil⟩
  · intro text report h
    unfold reporting at h
    split_ifs at h
    · rwa [← Except.ok.inj h]
    · rw [← Except.ok.inj h]
      decide

end Fix

end Fettle
