import Fettle.Proofs.Fix.Iteration
import Mathlib

/-!
# The budget of passes

A source whose answers are a function of the text starts over at every text, so the ceiling only
decides where a run is cut. A run that met its ceiling can be resumed from its text with what is
left of a larger budget, and any other end is the same under every larger budget (`resume`,
`converge_add`). The text of a run that has converged is a fixed point.
-/

namespace Fettle.Fix

variable {ε σ : Type}

/-! ## Outcomes of runs that go on -/

/-- What is counted before and what is counted before that adds up. -/
theorem Outcome.after_after (passes applied passes' applied' : ℕ) (o : Outcome) :
    (o.after passes applied).after passes' applied' =
      o.after (passes + passes') (applied + applied') := by
  simp only [Outcome.after, Nat.add_assoc]

section

variable (source : Source ε σ) (allowList : List String)

/-- Resume a run with a budget of `n` more passes: if it has met its ceiling it goes on from its
text, and any other end stays as it is. -/
def resume (memory : σ) (n : ℕ) : Except ε Outcome → Except ε Outcome
  | .ok o =>
    if o.state = .exhausted then
      (converge source allowList n o.text memory).1.map (Outcome.after o.passes o.applied)
    else .ok o
  | .error e => .error e

variable {source allowList} in
/-- A run that met its ceiling is resumed from its text, and the counts go on. -/
theorem resume_of_exhausted {memory : σ} {n : ℕ} {o : Outcome} (h : o.state = .exhausted) :
    resume source allowList memory n (.ok o) =
      (converge source allowList n o.text memory).1.map (Outcome.after o.passes o.applied) :=
  if_pos h

variable {source allowList} in
/-- A run that came to its end is not resumed. -/
theorem resume_of_converged {memory : σ} {n : ℕ} {o : Outcome} (h : o.state = .converged) :
    resume source allowList memory n (.ok o) = .ok o :=
  if_neg (by rw [h]; exact State.noConfusion)

/-- Passes that were performed before may be counted before or after a run is resumed. -/
theorem resume_map_after (memory : σ) (n passes applied : ℕ) (result : Except ε Outcome) :
    resume source allowList memory n (result.map (Outcome.after passes applied)) =
      (resume source allowList memory n result).map (Outcome.after passes applied) := by
  cases result with
  | error e => rfl
  | ok o =>
    show resume source allowList memory n (.ok (o.after passes applied)) = _
    cases h : o.state with
    | converged =>
      have hafter : (o.after passes applied).state = .converged := h
      rw [resume_of_converged h, resume_of_converged hafter]
      rfl
    | exhausted =>
      have hafter : (o.after passes applied).state = .exhausted := h
      rw [resume_of_exhausted h, resume_of_exhausted hafter]
      show (converge source allowList n o.text memory).1.map _ = _
      cases (converge source allowList n o.text memory).1 with
      | error e => rfl
      | ok o' => exact congrArg Except.ok (o'.after_after ..).symm

end

/-! ## One turn of a run -/

section Turn

variable {source : Source ε σ} {report : String → Except ε (List Diagnostic)}
  (h : source.AnswersBy report) (allowList : List String) {text : String}
include h

/-- What a source remembers has no influence on the result. -/
theorem Source.AnswersBy.converge_memory (maxPasses : ℕ) (text : String) (memory memory' : σ) :
    (converge source allowList maxPasses text memory).1 =
      (converge source allowList maxPasses text memory').1 :=
  h.converge_result_eq h
    (fun text => .refl (fun answer => Eq.refl (runPass text answer allowList)) _) maxPasses text memory memory'

/-- A source that fails on the text ends the run. -/
theorem Source.AnswersBy.converge_of_error {e : ε} (he : report text = .error e) (m : ℕ)
    (memory : σ) : (converge source allowList (m + 1) text memory).1 = .error e := by
  rw [converge, convergeFrom_of_error _ _ _ _ _ ((h text memory).trans he)]

/-- A report without admissible edits ends the run with the text as it is. -/
theorem Source.AnswersBy.converge_of_nil {answer : List Diagnostic} (ha : report text = .ok answer)
    (hnone : admissible answer allowList = []) (m : ℕ) (memory : σ) :
    (converge source allowList (m + 1) text memory).1 = .ok ⟨text, 0, 0, .converged⟩ := by
  rw [converge, convergeFrom_of_nil _ _ _ _ _ ((h text memory).trans ha) hnone]

/-- After a pass a run is the run on the patched text, with the pass counted. -/
theorem Source.AnswersBy.converge_of_ne_nil {answer : List Diagnostic}
    (ha : report text = .ok answer) (hsome : admissible answer allowList ≠ []) (m : ℕ)
    (memory : σ) :
    (converge source allowList (m + 1) text memory).1 =
      (converge source allowList m (patch text (select (admissible answer allowList))) memory).1.map
        (Outcome.after 1 (select (admissible answer allowList)).length) := by
  rw [converge, convergeFrom_of_ne_nil _ _ _ _ _ ((h text memory).trans ha) hsome,
    convergeFrom_eq_after, Nat.zero_add, Nat.zero_add]
  show Except.map _ (converge source allowList m _ _).1 = _
  rw [h.converge_memory allowList m _ _ memory]

/-- A run with a larger budget is the run with a smaller budget, resumed. -/
theorem Source.AnswersBy.converge_add (m n : ℕ) (text : String) (memory : σ) :
    (converge source allowList (m + n) text memory).1 =
      resume source allowList memory n (converge source allowList m text memory).1 := by
  induction m generalizing text with
  | zero =>
    rw [Nat.zero_add]
    show _ = Except.map (Outcome.after 0 0) _
    cases (converge source allowList n text memory).1 with
    | error e => rfl
    | ok o => rfl
  | succ m ih =>
    rw [Nat.add_right_comm]
    cases ha : report text with
    | error e => rw [h.converge_of_error allowList ha, h.converge_of_error allowList ha]; rfl
    | ok answer =>
      by_cases hnone : admissible answer allowList = []
      · rw [h.converge_of_nil allowList ha hnone, h.converge_of_nil allowList ha hnone]
        rfl
      -- Both runs perform the same pass, and the rest of the longer one is the rest of the shorter
      -- one resumed.
      · rw [h.converge_of_ne_nil allowList ha hnone, h.converge_of_ne_nil allowList ha hnone, ih,
          resume_map_after]

/-- Where a run has converged, the source has nothing admissible left to report. -/
theorem Source.AnswersBy.admissible_of_converged {m : ℕ} {memory : σ} {o : Outcome}
    (hrun : (converge source allowList m text memory).1 = .ok o) (hstate : o.state = .converged) :
    ∃ answer, report o.text = .ok answer ∧ admissible answer allowList = [] := by
  induction m generalizing text o with
  | zero =>
    rw [← Except.ok.inj hrun] at hstate
    cases hstate
  | succ m ih =>
    cases ha : report text with
    | error e =>
      rw [h.converge_of_error allowList ha] at hrun
      cases hrun
    | ok answer =>
      by_cases hnone : admissible answer allowList = []
      · rw [h.converge_of_nil allowList ha hnone] at hrun
        rw [← Except.ok.inj hrun]
        exact ⟨answer, ha, hnone⟩
      · rw [h.converge_of_ne_nil allowList ha hnone] at hrun
        cases hrest : (converge source allowList m
            (patch text (select (admissible answer allowList))) memory).1 with
        | error e =>
          rw [hrest] at hrun
          cases hrun
        | ok o' =>
          -- Counting the pass changes neither the text nor the state of the outcome.
          rw [hrest] at hrun
          obtain rfl : o'.after 1 _ = o := Except.ok.inj hrun
          have hfixed := ih hrest hstate
          exact hfixed

end Turn

/-- With a source that is a function of the text, the budget only decides where a run is cut. A run
that has met its ceiling is the beginning of the run with a larger budget, which goes on from its
text; a run that has converged is the run with every larger budget, and its text is a fixed point;
and a run that fails does so with every larger budget. What the source remembers plays no part. -/
theorem converge_budget {source : Source ε σ} {report : String → Except ε (List Diagnostic)}
    (h : source.AnswersBy report) (allowList : List String) (text : String) (m : ℕ)
    (memory memory' : σ) :
    (∀ t passes applied n, (converge source allowList m text memory).1 =
        .ok ⟨t, passes, applied, .exhausted⟩ →
      (converge source allowList (m + n) text memory').1 =
        (converge source allowList n t memory').1.map (Outcome.after passes applied)) ∧
    (∀ o, (converge source allowList m text memory).1 = .ok o → o.state = .converged →
      (∀ m' ≥ m, (converge source allowList m' text memory').1 = .ok o) ∧
      ∀ k ≥ 1, (converge source allowList k o.text memory').1 =
        .ok ⟨o.text, 0, 0, .converged⟩) ∧
    ∀ e, (converge source allowList m text memory).1 = .error e →
      ∀ m' ≥ m, (converge source allowList m' text memory').1 = .error e := by
  rw [h.converge_memory allowList m text memory memory']
  -- A larger budget is the smaller one and a rest, and `resume` says what becomes of the rest.
  refine ⟨?_, ?_, ?_⟩
  · intro t passes applied n hrun
    rw [h.converge_add, hrun, resume_of_exhausted rfl]
  · intro o hrun hstate
    refine ⟨?_, ?_⟩
    · intro m' hm'
      obtain ⟨n, rfl⟩ := Nat.exists_eq_add_of_le hm'
      rw [h.converge_add, hrun, resume_of_converged hstate]
    · intro k hk
      obtain ⟨answer, ha, hnone⟩ := h.admissible_of_converged allowList hrun hstate
      obtain ⟨k, rfl⟩ := Nat.exists_eq_add_of_le' hk
      exact h.converge_of_nil allowList ha hnone k memory'
  · intro e hrun m' hm'
    obtain ⟨n, rfl⟩ := Nat.exists_eq_add_of_le hm'
    rw [h.converge_add, hrun]
    rfl

/-- A source that removes one `a` from the front of a text at a time, and fails on a text that
begins with an `x`. -/
def nibble : Source String ℕ := fun text asked =>
  (match text.toList with
    | 'a' :: _ => .ok [{ ruleCode := some "F401", edits := [.deletion ⟨0, 0⟩ ⟨0, 1⟩] }]
    | 'x' :: _ => .error "cannot parse"
    | _ => .ok [], asked + 1)

/-- A run that is cut after two passes goes on to its fixed point, and a run that would fail does so
once the budget lets it come that far. -/
theorem converge_budget_nibble :
    (nibble.AnswersBy fun text => nibble.answer text 0) ∧
      (converge nibble ["F"] 2 "aaab" 0).1 = .ok ⟨"ab", 2, 2, .exhausted⟩ ∧
      (converge nibble ["F"] (2 + 5) "aaab" 7).1 = .ok ⟨"b", 3, 3, .converged⟩ ∧
      (converge nibble ["F"] 100 "aaab" 7).1 = .ok ⟨"b", 3, 3, .converged⟩ ∧
      (converge nibble ["F"] 1 "b" 7).1 = .ok ⟨"b", 0, 0, .converged⟩ ∧
      (converge nibble ["F"] 1 "ax" 0).1 = .ok ⟨"x", 1, 1, .exhausted⟩ ∧
      (converge nibble ["F"] 100 "ax" 7).1 = .error "cannot parse" := by
  have h : nibble.AnswersBy fun text => nibble.answer text 0 := fun _ _ => rfl
  have hcut : (converge nibble ["F"] 2 "aaab" 0).1 = .ok ⟨"ab", 2, 2, .exhausted⟩ := by cbv
  have hfour : (converge nibble ["F"] 4 "aaab" 0).1 = .ok ⟨"b", 3, 3, .converged⟩ := by cbv
  have hfails : (converge nibble ["F"] 2 "ax" 0).1 = .error "cannot parse" := by cbv
  obtain ⟨hstays, hfixed⟩ := (converge_budget h ["F"] "aaab" 4 0 7).2.1 _ hfour rfl
  refine ⟨h, hcut, ?_, hstays 100 (by decide), hfixed 1 (by decide), by cbv,
    (converge_budget h ["F"] "ax" 2 0 7).2.2 _ hfails 100 (by decide)⟩
  rw [(converge_budget h ["F"] "aaab" 2 0 7).1 _ _ _ 5 hcut]
  cbv

end Fettle.Fix
