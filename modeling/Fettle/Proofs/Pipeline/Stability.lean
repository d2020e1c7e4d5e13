import Fettle.Proofs.Fix.Budget
import Fettle.Proofs.Pipeline.Stages

/-!
# A second run changes nothing

The result of a run is the fixed text formatted once more, so it is no fixed point of the loop of
passes by itself. It is one if the formatter leaves its own output alone and brings no fixes back:
the loop has stopped at a text without fixes, formatting keeps it without fixes, and a run on such
a text that is formatted already comes to an end at once (`Steady.run_of_tidy`). So a run on the
result of a run changes nothing, unless the first one was cut at its ceiling (`run_formatted_eq`).
-/

namespace Fettle

variable {σ : Type}

/-- A source that answers by a function reports nothing about a text that may be fixed. -/
def Fix.Clean (report : String → Except EngineError (List Diagnostic)) (allowList : List String)
    (text : String) : Prop :=
  ∃ answer, report text = .ok answer ∧ admissible answer allowList = []

/-- A formatter answers by a function of the options and the text, whatever it remembers. -/
def Formatter.AnswersBy (formatter : Formatter σ)
    (format : FormatOptions → String → Except EngineError String) : Prop :=
  ∀ options text memory, (formatter options text memory).1 = format options text

namespace Pipeline

/-- Engines with which a pipeline can come to rest: they answer by functions, the formatter leaves
its own output alone, and it brings no fixes back. -/
structure Steady (p : Pipeline) (E : Engines σ)
    (format : FormatOptions → String → Except EngineError String)
    (report : String → Except EngineError (List Diagnostic)) : Prop where
  /-- The formatter answers by a function of the options and the text. -/
  formatter : E.formatter.AnswersBy format
  /-- The source of fixes answers by a function of the text. -/
  diagnostics : E.diagnostics.AnswersBy report
  /-- What the formatter has made of a text that it accepts, it accepts and leaves as it is. -/
  again : ∀ text formatted, format p.format text = .ok formatted →
    format p.format formatted = .ok formatted
  /-- A text that needs no fix needs none when it is formatted. -/
  clean : ∀ text formatted, Fix.Clean report p.allowList text →
    format p.format text = .ok formatted → Fix.Clean report p.allowList formatted

variable {p : Pipeline} {E : Engines σ} {format : FormatOptions → String → Except EngineError String}
  {report : String → Except EngineError (List Diagnostic)}

/-- A loop of passes that has not met its ceiling has room for a check, and stops at once at a text
that needs no fix. -/
theorem Steady.converge_of_clean (h : Steady p E format report) {text : String}
    (hclean : Fix.Clean report p.allowList text) (hroom : p.maxPasses ≠ 0) (memory : σ) :
    (Fix.converge E.diagnostics p.allowList p.maxPasses text memory).1 =
      .ok ⟨text, 0, 0, .converged⟩ := by
  obtain ⟨answer, hanswer, hnone⟩ := hclean
  obtain ⟨n, hn⟩ := Nat.exists_eq_succ_of_ne_zero hroom
  rw [hn]
  exact h.diagnostics.converge_of_nil p.allowList hanswer hnone n memory

/-- A run on a text that is formatted and needs no fix gives the text back. -/
theorem Steady.run_of_tidy (h : Steady p E format report) {text : String}
    (hformatted : format p.format text = .ok text) (hclean : Fix.Clean report p.allowList text)
    (hroom : p.maxPasses ≠ 0) (memory : σ) :
    (p.run E text memory).1 = .ok ⟨text, false, [.format, .fix, .reformat], 0, 0, false⟩ := by
  have hcall : ∀ m, E.formatter p.format text m = (.ok text, (E.formatter p.format text m).2) :=
    fun m => Prod.ext ((h.formatter p.format text m).trans hformatted) rfl
  have hfix : ∀ m, Fix.converge E.diagnostics p.allowList p.maxPasses text m =
      (.ok ⟨text, 0, 0, .converged⟩,
        (Fix.converge E.diagnostics p.allowList p.maxPasses text m).2) :=
    fun m => Prod.ext (h.converge_of_clean hclean hroom m) rfl
  rw [run_of_ok (hcall memory) (hfix _) (hcall _)]
  simp

/-- The loop of passes cannot stop before its ceiling if the ceiling is zero. -/
theorem maxPasses_ne_zero_of_converged {text : String} {memory memory' : σ} {fixed : Fix.Outcome}
    (hfix : Fix.converge E.diagnostics p.allowList p.maxPasses text memory = (.ok fixed, memory'))
    (hstate : fixed.state = .converged) : p.maxPasses ≠ 0 := by
  intro hzero
  rw [hzero] at hfix
  have hcut : Except.ok ⟨text, 0, 0, .exhausted⟩ = Except.ok fixed := congrArg Prod.fst hfix
  rw [← Except.ok.inj hcut] at hstate
  cases hstate

/-- What a run that was not cut at its ceiling gives is formatted and needs no fix. -/
theorem Steady.tidy_of_run (h : Steady p E format report) {source : String} {memory : σ}
    {o : Outcome} (hrun : (p.run E source memory).1 = .ok o)
    (hstopped : o.summary.fixExhausted = false) :
    format p.format o.formatted = .ok o.formatted ∧
      Fix.Clean report p.allowList o.formatted ∧ p.maxPasses ≠ 0 := by
  obtain ⟨calls, memory', result, hends, heq, -⟩ := run_ends p E source memory
  rw [heq] at hrun
  cases hends with
  | formatFails => cases hrun
  | checkFails => cases hrun
  | reformatFails => cases hrun
  | @succeeds _ reformatted _ fixed _ memory₂ _ hfirst hfix hlast =>
    obtain rfl := Except.ok.inj hrun
    have hstate : fixed.state = .converged := by
      cases hcut : fixed.state with
      | converged => rfl
      | exhausted => simp [hcut] at hstopped
    -- The last stage formats a text at which the loop has found nothing to fix.
    have hfixed : Fix.Clean report p.allowList fixed.text :=
      h.diagnostics.admissible_of_converged p.allowList (congrArg Prod.fst hfix.converge) hstate
    have hreformat : format p.format fixed.text = .ok reformatted :=
      (h.formatter p.format fixed.text memory₂).symm.trans (congrArg Prod.fst hlast)
    exact ⟨h.again _ _ hreformat, h.clean _ _ hfixed hreformat,
      maxPasses_ne_zero_of_converged hfix.converge hstate⟩

/-- A run on the result of a run changes nothing and fixes nothing, if the first one was not cut at
its ceiling. The engines answer by functions, the formatter leaves its own output alone, and
formatting a text that needs no fix gives one that needs none. What the engines remember between the
runs plays no part. -/
theorem run_formatted_eq (p : Pipeline) (E : Engines σ) (h : Steady p E format report)
    (source : String) (memory memory' : σ) {o : Outcome}
    (hrun : (p.run E source memory).1 = .ok o) (hstopped : o.summary.fixExhausted = false) :
    (p.run E o.formatted memory').1 =
      .ok ⟨o.formatted, false, [.format, .fix, .reformat], 0, 0, false⟩ := by
  obtain ⟨hformatted, hclean, hroom⟩ := h.tidy_of_run hrun hstopped
  exact h.run_of_tidy hformatted hclean hroom memory'

/-- A formatter that ends every text with an exclamation mark. -/
def exclaim (text : String) : String :=
  if text.toList.getLast? = some '!' then text else text ++ "!"

/-- A report that asks to take one `a` from the front of a text. -/
def reportLeadingA (text : String) : List Diagnostic :=
  if text.toList.head? = some 'a' then
    [{ ruleCode := some "F401", edits := [.deletion ⟨0, 0⟩ ⟨0, 1⟩] }]
  else []

/-- Engines that exclaim and take away what is reported, and count their calls. -/
def exclaiming : Engines ℕ where
  formatter _ text calls := (.ok (exclaim text), calls + 1)
  diagnostics text calls := (.ok (reportLeadingA text), calls + 1)
  linter _ calls := (.ok [], calls + 1)

/-- A text with a mark at its end is given no second one. -/
theorem exclaim_exclaim (text : String) : exclaim (exclaim text) = exclaim text := by
  by_cases h : text.toList.getLast? = some '!'
  · simp [exclaim, h]
  · simp [exclaim, h]

/-- A text needs no fix exactly if it does not begin with the letter. -/
theorem clean_reportLeadingA_iff (text : String) :
    Fix.Clean (fun text => .ok (reportLeadingA text)) defaultAllowList text ↔
      text.toList.head? ≠ some 'a' := by
  by_cases h : text.toList.head? = some 'a'
  · have hsome : Fix.admissible (reportLeadingA text) defaultAllowList ≠ [] := by
      rw [reportLeadingA, if_pos h]
      decide
    refine ⟨?_, fun hne => absurd h hne⟩
    rintro ⟨_, ⟨⟩, hnone⟩
    exact absurd hnone hsome
  · refine ⟨fun _ => h, fun _ => ⟨_, rfl, ?_⟩⟩
    rw [reportLeadingA, if_neg h]
    rfl

/-- A formatter that sets a mark at the end does not disturb a report about the first character. -/
theorem steady_exclaiming :
    Steady {} exclaiming (fun _ text => .ok (exclaim text)) (fun text => .ok (reportLeadingA text))
    where
  formatter _ _ _ := rfl
  diagnostics _ _ := rfl
  again := by
    rintro text _ ⟨⟩
    rw [exclaim_exclaim]
  clean := by
    rintro text _ htext ⟨⟩
    rw [clean_reportLeadingA_iff] at htext ⊢
    unfold exclaim
    split
    · exact htext
    · rw [String.toList_append]
      cases hchars : text.toList with
      | nil => decide
      | cons c cs =>
        rw [hchars] at htext
        exact htext

/-- The first run takes two letters away and adds a mark; the second one finds nothing to do. -/
theorem run_formatted_eq_exclaiming :
    Steady {} exclaiming (fun _ text => .ok (exclaim text))
        (fun text => .ok (reportLeadingA text)) ∧
      (({} : Pipeline).run exclaiming "aab" 0).1 =
        .ok ⟨"b!", true, [.format, .fix, .reformat], 2, 2, false⟩ ∧
      (({} : Pipeline).run exclaiming "b!" 5).1 =
        .ok ⟨"b!", false, [.format, .fix, .reformat], 0, 0, false⟩ := by
  have hrun : (({} : Pipeline).run exclaiming "aab" 0).1 =
      .ok ⟨"b!", true, [.format, .fix, .reformat], 2, 2, false⟩ := by cbv
  have hagain := run_formatted_eq {} exclaiming steady_exclaiming "aab" 0 5 hrun rfl
  exact ⟨steady_exclaiming, hrun, hagain⟩

end Pipeline

end Fettle
