import Fettle.Proofs.Fix.Lockstep
import Fettle.Proofs.Fix.Selection
import Mathlib.Algebra.Order.BigOperators.Group.Finset

/-!
# A run is a bounded iteration of passes

A run starts with a text and what the source remembers, and each turn asks the source and patches
the text with the edits selected from its answer (`turn`). `roundAt` iterates the turn without ever
stopping. `Performed` and `Ends` say where a run stops in that sequence and with what result, and
`converge_iterates` says that every run stops there. What the source is asked is seen in the run of
the source that writes it down.
-/

namespace Fettle.Fix

variable {ε σ : Type}

/-- Where a run stands before a turn. -/
structure Round (σ : Type) where
  /-- The text. -/
  text : String
  /-- What the source remembers. -/
  memory : σ

/-- The edits that are applied upon an answer; none if the source has failed. -/
def selected (allowList : List String) : Except ε (List Diagnostic) → List Edit
  | .ok report => select (admissible report allowList)
  | .error _ => []

section Rounds

variable (source : Source ε σ) (allowList : List String)

/-- One turn: ask the source, and patch the text with what is selected. -/
def turn (r : Round σ) : Round σ :=
  ⟨patch r.text (selected allowList (source.answer r.text r.memory)),
    source.next r.text r.memory⟩

/-- Where a run stands after a number of turns. -/
def roundAt (r : Round σ) (k : ℕ) : Round σ := (turn source allowList)^[k] r

/-- What the source answers after a number of turns. -/
def answerAt (r : Round σ) (k : ℕ) : Except ε (List Diagnostic) :=
  source.answer (roundAt source allowList r k).text (roundAt source allowList r k).memory

/-- The number of edits applied in a number of turns. -/
def appliedBy (r : Round σ) (k : ℕ) : ℕ :=
  ∑ i ∈ Finset.range k, (selected allowList (answerAt source allowList r i)).length

/-- The first `k` turns are passes: the source answers, and its answer holds an admissible edit. -/
def Performed (r : Round σ) (k : ℕ) : Prop :=
  ∀ i < k, ∃ report, answerAt source allowList r i = .ok report ∧
    admissible report allowList ≠ []

/-- How a run of at most `maxPasses` passes ends after `k` passes: with a result, and once the
source has been asked a number of times. -/
inductive Ends (maxPasses : ℕ) (r : Round σ) : ℕ → ℕ → Except ε Outcome → Prop
  /-- The ceiling is met; the source is not asked again. -/
  | ceiling : Ends maxPasses r maxPasses maxPasses
      (.ok ⟨(roundAt source allowList r maxPasses).text, maxPasses,
        appliedBy source allowList r maxPasses, .exhausted⟩)
  /-- The source fails. -/
  | failure {k : ℕ} {e : ε} (hk : k < maxPasses) (h : answerAt source allowList r k = .error e) :
      Ends maxPasses r k (k + 1) (.error e)
  /-- No admissible edit is left. -/
  | fixedPoint {k : ℕ} {report : List Diagnostic} (hk : k < maxPasses)
      (h : answerAt source allowList r k = .ok report) (hnone : admissible report allowList = []) :
      Ends maxPasses r k (k + 1)
        (.ok ⟨(roundAt source allowList r k).text, k, appliedBy source allowList r k, .converged⟩)

end Rounds

/-! ## Looking one turn ahead -/

section Ahead

variable {source : Source ε σ} {allowList : List String} {r : Round σ}

/-- A round of what follows a turn is the next round. -/
theorem roundAt_turn (k : ℕ) :
    roundAt source allowList (turn source allowList r) k = roundAt source allowList r (k + 1) :=
  rfl

/-- With one turn more in front, what this turn applies is added. -/
theorem appliedBy_turn (k : ℕ) :
    appliedBy source allowList r (k + 1) =
      appliedBy source allowList (turn source allowList r) k +
        (selected allowList (answerAt source allowList r 0)).length := by
  rw [appliedBy, Finset.sum_range_succ']
  rfl

/-- Rounds that are performed behind a turn that applies something are performed with it. -/
theorem Performed.ahead {k : ℕ} {report : List Diagnostic}
    (h0 : answerAt source allowList r 0 = .ok report) (hsome : admissible report allowList ≠ [])
    (h : Performed source allowList (turn source allowList r) k) :
    Performed source allowList r (k + 1) := by
  intro i hi
  cases i with
  | zero => exact ⟨report, h0, hsome⟩
  | succ i => exact h i (by omega)

/-- The outcome of a run that goes on after some passes. -/
def Outcome.after (passes applied : ℕ) (o : Outcome) : Outcome :=
  { o with passes := o.passes + passes, applied := o.applied + applied }

/-- How a run ends after its first pass, it ends when it is seen as a whole. -/
theorem Ends.ahead {left k checks : ℕ} {result : Except ε Outcome}
    (h : Ends source allowList left (turn source allowList r) k checks result) :
    Ends source allowList (left + 1) r (k + 1) (checks + 1) (result.map
      (Outcome.after 1 (selected allowList (answerAt source allowList r 0)).length)) := by
  -- The same way of ending, with the edits of the first pass added to those of the others.
  cases h with
  | ceiling =>
    have hend : Ends source allowList (left + 1) r (left + 1) (left + 1) _ := .ceiling
    rw [appliedBy_turn] at hend
    exact hend
  | failure hk h => exact .failure (Nat.succ_lt_succ hk) h
  | fixedPoint hk h hnone =>
    have hend : Ends source allowList (left + 1) r _ _ _ :=
      .fixedPoint (Nat.succ_lt_succ hk) h hnone
    rw [appliedBy_turn] at hend
    exact hend

end Ahead

/-! ## The loop, turn by turn -/

section Loop

variable (source : Source ε σ) (allowList : List String) {text : String} {memory : σ}

/-- The loop stops if the source fails. -/
theorem convergeFrom_of_error (left passes applied : ℕ) {e : ε}
    (h : source.answer text memory = .error e) :
    convergeFrom source allowList (left + 1) text passes applied memory =
      (.error e, source.next text memory) :=
  Call.bind_of_error (Prod.ext h rfl)

/-- The loop stops if the answer holds no admissible edit. -/
theorem convergeFrom_of_nil (left passes applied : ℕ) {report : List Diagnostic}
    (h : source.answer text memory = .ok report) (hnone : admissible report allowList = []) :
    convergeFrom source allowList (left + 1) text passes applied memory =
      (.ok ⟨text, passes, applied, .converged⟩, source.next text memory) := by
  have hkept : (runPass text report allowList).applied = 0 := by
    rw [runPass, select_eq_nil_iff.mpr hnone]
    rfl
  unfold convergeFrom
  rw [Call.bind_of_ok (Prod.ext h rfl), if_pos hkept]
  rfl

/-- Otherwise the loop patches the text with the selected edits and goes on. -/
theorem convergeFrom_of_ne_nil (left passes applied : ℕ) {report : List Diagnostic}
    (h : source.answer text memory = .ok report) (hsome : admissible report allowList ≠ []) :
    convergeFrom source allowList (left + 1) text passes applied memory =
      convergeFrom source allowList left (patch text (select (admissible report allowList)))
        (passes + 1) (applied + (select (admissible report allowList)).length)
        (source.next text memory) := by
  have hkept : (runPass text report allowList).applied ≠ 0 := fun h0 =>
    hsome (select_eq_nil_iff.mp (List.length_eq_zero_iff.mp h0))
  conv_lhs => unfold convergeFrom
  rw [Call.bind_of_ok (Prod.ext h rfl), if_neg hkept]
  rfl

/-- The counts with which the loop starts are added to those of its outcome. -/
theorem convergeFrom_eq_after (left passes applied : ℕ) (text : String) (memory : σ) :
    convergeFrom source allowList left text passes applied memory =
      ((convergeFrom source allowList left text 0 0 memory).1.map (Outcome.after passes applied),
        (convergeFrom source allowList left text 0 0 memory).2) := by
  induction left generalizing text memory passes applied with
  | zero =>
    show (Except.ok (⟨text, passes, applied, .exhausted⟩ : Outcome), memory) =
      (Except.ok (⟨text, 0 + passes, 0 + applied, .exhausted⟩ : Outcome), memory)
    rw [Nat.zero_add, Nat.zero_add]
  | succ left ih =>
    cases h : source.answer text memory with
    | error e => rw [convergeFrom_of_error _ _ _ _ _ h, convergeFrom_of_error _ _ _ _ _ h]; rfl
    | ok report =>
      by_cases hnone : admissible report allowList = []
      -- Without an admissible edit both sides end here.
      · rw [convergeFrom_of_nil _ _ _ _ _ h hnone, convergeFrom_of_nil _ _ _ _ _ h hnone]
        simp [Except.map, Outcome.after]
      · rw [convergeFrom_of_ne_nil _ _ _ _ _ h hnone, convergeFrom_of_ne_nil _ _ _ _ _ h hnone,
          ih, ih (0 + 1)]
        generalize convergeFrom source allowList left _ 0 0 _ = run
        obtain ⟨result | result, memory'⟩ := run
        · rfl
        · simp only [Except.map, Outcome.after]
          congr 3
          · omega
          · omega

end Loop

/-! ## Where a run stops -/

section Stop

variable (source : Source ε σ) (allowList : List String)

/-- The texts before the first turns. -/
def textsBefore (r : Round σ) (checks : ℕ) : List String :=
  (List.range checks).map fun i => (roundAt source allowList r i).text

/-- The first text that is looked at comes before those that are looked at behind the turn. -/
theorem textsBefore_succ (r : Round σ) (checks : ℕ) :
    textsBefore source allowList r (checks + 1) =
      r.text :: textsBefore source allowList (turn source allowList r) checks := by
  rw [textsBefore, List.range_succ_eq_map, List.map_cons, List.map_map]
  rfl

/-- A turn applies what is selected of the report, and the memory goes on. -/
theorem turn_of_ok {r : Round σ} {report : List Diagnostic}
    (h : source.answer r.text r.memory = .ok report) :
    turn source allowList r =
      ⟨patch r.text (select (admissible report allowList)), source.next r.text r.memory⟩ := by
  rw [turn, h]
  rfl

/-- The loop stops where the iteration of turns says, having asked about the texts before the turns
that it has made. The induction is on the number of passes left. -/
theorem convergeFrom_ends (left : ℕ) (r : Round σ) (heard : List String) :
    ∃ k checks result, Performed source allowList r k ∧
      Ends source allowList left r k checks result ∧
      convergeFrom source.logged allowList left r.text 0 0 (r.memory, heard) =
        (result, (roundAt source allowList r checks).memory,
          heard ++ textsBefore source allowList r checks) := by
  induction left generalizing r heard with
  | zero =>
    refine ⟨0, 0, _, fun i hi => absurd hi (Nat.not_lt_zero i), .ceiling, ?_⟩
    rw [textsBefore, List.range_zero, List.map_nil, List.append_nil]
    rfl
  | succ left ih =>
    have hnone : Performed source allowList r 0 := fun i hi => absurd hi (Nat.not_lt_zero i)
    have hone : textsBefore source allowList r 1 = [r.text] := rfl
    have hlogged := source.logged_answer r.text r.memory heard
    cases h : source.answer r.text r.memory with
    | error e =>
      refine ⟨0, 1, .error e, hnone, .failure (Nat.succ_pos left) h, ?_⟩
      rw [convergeFrom_of_error _ _ _ _ _ (hlogged.trans h), source.logged_next, hone]
      rfl
    | ok report =>
      by_cases hsome : admissible report allowList = []
      · refine ⟨0, 1, _, hnone, .fixedPoint (Nat.succ_pos left) h hsome, ?_⟩
        rw [convergeFrom_of_nil _ _ _ _ _ (hlogged.trans h) hsome, source.logged_next, hone]
        rfl
      · obtain ⟨k, checks, result, hperformed, hends, hrun⟩ :=
          ih (turn source allowList r) (heard ++ [r.text])
        have hahead := hends.ahead
        rw [show answerAt source allowList r 0 = .ok report from h] at hahead
        refine ⟨k + 1, checks + 1, _, hperformed.ahead h hsome, hahead, ?_⟩
        -- The run goes on with the text and the memory after the turn.
        rw [convergeFrom_of_ne_nil _ _ _ _ _ (hlogged.trans h) hsome, convergeFrom_eq_after,
          source.logged_next, textsBefore_succ, ← roundAt_turn]
        rw [turn_of_ok source allowList h] at hrun ⊢
        rw [hrun, Nat.zero_add, Nat.zero_add, List.append_assoc]
        rfl

variable {source allowList} {r : Round σ}

/-- Each performed pass applies an edit. -/
theorem Performed.le_appliedBy {k : ℕ} (h : Performed source allowList r k) :
    k ≤ appliedBy source allowList r k := by
  have hone : ∀ i ∈ Finset.range k,
      1 ≤ (selected allowList (answerAt source allowList r i)).length := by
    intro i hi
    obtain ⟨report, hreport, hsome⟩ := h i (Finset.mem_range.mp hi)
    rw [hreport]
    exact List.length_pos_iff.mpr fun hnil => hsome (select_eq_nil_iff.mp hnil)
  simpa [appliedBy] using Finset.card_nsmul_le_sum _ _ 1 hone

/-- A run looks at no more texts than the ceiling allows, -/
theorem Ends.checks_le {maxPasses k checks : ℕ} {result : Except ε Outcome}
    (h : Ends source allowList maxPasses r k checks result) : checks ≤ maxPasses := by
  cases h with
  | ceiling => exact Nat.le_refl _
  | failure hk => exact hk
  | fixedPoint hk => exact hk

/-- and makes no more passes. -/
theorem Ends.passes_le {maxPasses k checks : ℕ} {result : Except ε Outcome}
    (h : Ends source allowList maxPasses r k checks result) : k ≤ maxPasses := by
  cases h with
  | ceiling => exact Nat.le_refl _
  | failure hk => exact Nat.le_of_lt hk
  | fixedPoint hk => exact Nat.le_of_lt hk

/-- The outcome counts the performed passes and what they have applied, and says that the ceiling
was met exactly if it was. -/
theorem Ends.counts {maxPasses k checks : ℕ} {o : Outcome}
    (h : Ends source allowList maxPasses r k checks (.ok o)) :
    o.passes = k ∧ o.applied = appliedBy source allowList r k ∧
      (o.state = .exhausted ↔ o.passes = maxPasses) := by
  cases h with
  | ceiling => exact ⟨rfl, rfl, iff_of_true rfl rfl⟩
  | fixedPoint hk => exact ⟨rfl, rfl, iff_of_false (fun h => State.noConfusion h) (Nat.ne_of_lt hk)⟩

end Stop

/-- A run stops before the first turn that the ceiling, a failure or a fixed point forbids, with
the text, the memory and the counts of the turns before it. It asks the source about the texts of
these turns in order and about nothing else, and at most `maxPasses` times. -/
theorem converge_iterates (source : Source ε σ) (allowList : List String) (maxPasses : ℕ)
    (initial : String) (memory : σ) :
    ∃ k checks result, Performed source allowList ⟨initial, memory⟩ k ∧
      Ends source allowList maxPasses ⟨initial, memory⟩ k checks result ∧
      converge source allowList maxPasses initial memory =
        (result, (roundAt source allowList ⟨initial, memory⟩ checks).memory) ∧
      converge source.logged allowList maxPasses initial (memory, []) =
        (result, (roundAt source allowList ⟨initial, memory⟩ checks).memory,
          textsBefore source allowList ⟨initial, memory⟩ checks) ∧
      checks ≤ maxPasses ∧
      ∀ o, result = .ok o →
        o.passes ≤ o.applied ∧ (o.state = .exhausted ↔ o.passes = maxPasses) := by
  obtain ⟨k, checks, result, hperformed, hends, hlogged⟩ :=
    convergeFrom_ends source allowList maxPasses ⟨initial, memory⟩ []
  refine ⟨k, checks, result, hperformed, hends, converge_of_logged hlogged, hlogged,
    hends.checks_le, ?_⟩
  rintro o rfl
  obtain ⟨hpasses, happlied, hstate⟩ := hends.counts
  exact ⟨by rw [hpasses, happlied]; exact hperformed.le_appliedBy, hstate⟩

end Fettle.Fix
