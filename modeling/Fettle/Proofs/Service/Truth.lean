import Fettle.Proofs.Service.Handling

/-!
# Truthful responses

A response tells the truth if it says whether the text has changed, and on failure returns the text
of the request unchanged with a message. A summary must fit the settings of the pipeline. Both ways
in which a request is answered, by the engines or by the error of an attempt to start them, lead to
truthful responses, so all responses of a service are truthful (`exchanges_truthful`).
-/

namespace Fettle

variable {σ : Type}

/-! ## What a response may say -/

/-- The summary of a run of all stages fits the settings. -/
structure Pipeline.Summary.Fits (p : Pipeline) (s : Pipeline.Summary) : Prop where
  /-- All stages ran. -/
  stages : s.stagesRun = [.format, .fix, .reformat]
  /-- The ceiling of passes was kept. -/
  passes_le : s.fixPasses ≤ p.maxPasses
  /-- Each pass has applied an edit, -/
  passes_le_applied : s.fixPasses ≤ s.fixesApplied
  /-- and edits were applied in passes only. -/
  applied_eq_zero_iff : s.fixesApplied = 0 ↔ s.fixPasses = 0
  /-- Fixing stopped at the ceiling if it was met. -/
  exhausted_iff : s.fixExhausted = true ↔ s.fixPasses = p.maxPasses

/-- The truth about a request for formatting a text, with a summary that may be told. -/
inductive FormatResponse.Truthful (source : String) (May : Pipeline.Summary → Prop) :
    FormatResponse → Prop
  /-- A stage has failed: the text is as it was. -/
  | failed (e : EngineError) : Truthful source May ⟨false, source, false, none, some e.message⟩
  /-- All stages have succeeded. -/
  | succeeded (formatted : String) {summary : Pipeline.Summary} (h : May summary) :
      Truthful source May ⟨true, formatted, decide (formatted ≠ source), some summary, none⟩

/-- The truth about a lint request. -/
inductive LintResponse.Truthful : LintResponse → Prop
  /-- The source of findings has failed. -/
  | failed (e : EngineError) : Truthful ⟨false, [], 0, some e.message⟩
  /-- It has answered, and its findings are counted. -/
  | succeeded (entries : List LintEntry) : Truthful ⟨true, entries, entries.length, none⟩

/-- The truth about a request. -/
inductive Response.Truthful (p : Pipeline) : Request → Response → Prop
  /-- After all stages the summary fits the settings. -/
  | formatSource {source : String} {r : FormatResponse}
      (h : r.Truthful source (Pipeline.Summary.Fits p)) :
      Truthful p (.formatSource source) (.format r)
  /-- After formatting alone the summary tells of that stage, and of no fixes. -/
  | formatOnly {source : String} {r : FormatResponse}
      (h : r.Truthful source (· = ⟨[.format], 0, 0, false⟩)) :
      Truthful p (.formatOnly source) (.format r)
  /-- A report of findings has no summary. -/
  | lintSource {source : String} {r : LintResponse} (h : r.Truthful) :
      Truthful p (.lintSource source) (.lint r)

/-! ## What the service says -/

/-- The summary of a successful run fits the settings. -/
theorem Pipeline.Fixes.fits {p : Pipeline} {E : Engines σ} {text : String} {memory memory' : σ}
    {checked : List String} {fixed : Fix.Outcome}
    (h : Fixes p E text memory checked memory' (.ok fixed)) :
    Summary.Fits p ⟨[.format, .fix, .reformat], fixed.passes, fixed.applied,
      decide (fixed.state = .exhausted)⟩ := by
  obtain ⟨k, checks, hperformed, hends, -⟩ := h.iterates
  obtain ⟨hpasses, happlied, hstate⟩ := hends.counts
  have hle : fixed.passes ≤ fixed.applied := by
    rw [hpasses, happlied]
    exact hperformed.le_appliedBy
  refine ⟨rfl, ?_, hle, ⟨fun h0 => Nat.le_zero.mp (h0 ▸ hle), fun h0 => ?_⟩, ?_⟩
  · rw [hpasses]
    exact hends.passes_le
  · have hnone : k = 0 := hpasses.symm.trans h0
    rw [hnone] at happlied
    exact happlied
  · rw [decide_eq_true_iff]
    exact hstate

/-- The response to a run tells the truth. -/
theorem FormatResponse.Truthful.of_run (p : Pipeline) (E : Engines σ) (source : String)
    (memory : σ) :
    (FormatResponse.ofRun source (p.run E source memory).1).Truthful source
      (Pipeline.Summary.Fits p) := by
  obtain ⟨calls, memory', result, hends, hrun, -⟩ := p.run_ends E source memory
  rw [hrun]
  cases hends with
  | formatFails => exact .failed _
  | checkFails => exact .failed _
  | reformatFails => exact .failed _
  | succeeds _ hfix => exact .succeeded _ hfix.fits

/-- The response to formatting alone tells the truth. -/
theorem FormatResponse.Truthful.of_answer (source : String) (answer : Except EngineError String) :
    (FormatResponse.ofAnswer source answer).Truthful source (· = ⟨[.format], 0, 0, false⟩) := by
  cases answer with
  | ok formatted => exact .succeeded formatted rfl
  | error e => exact .failed e

/-- The response to a lint request tells the truth. -/
theorem LintResponse.Truthful.of_answer (answer : Except EngineError (List Diagnostic)) :
    (LintResponse.ofAnswer answer).Truthful := by
  cases answer with
  | ok report =>
    have h := LintResponse.Truthful.succeeded (report.map LintEntry.ofDiagnostic)
    rw [List.length_map] at h
    exact h
  | error e => exact .failed e

namespace Service

/-- Engines that are ready lead to truthful responses, whatever they do. -/
theorem truthful_answer (p : Pipeline) (E : Engines σ) (request : Request) (memory : σ) :
    (answer p E request memory).1.Truthful p request := by
  cases request with
  | formatSource source =>
    rw [answer_formatSource]
    exact .formatSource (.of_run p E source memory)
  | formatOnly source =>
    rw [answer_formatOnly]
    exact .formatOnly (.of_answer source _)
  | lintSource source =>
    rw [answer_lintSource]
    exact .lintSource (.of_answer _)

/-- A request that is refused is told so truthfully. -/
theorem truthful_refuse (p : Pipeline) (e : EngineError) (request : Request) :
    (refuse e request).Truthful p request := by
  cases request with
  | formatSource source => exact .formatSource (.failed e)
  | formatOnly source => exact .formatOnly (.failed e)
  | lintSource source => exact .lintSource (.failed e)

/-- However a request is handled, its response tells the truth. -/
theorem Handles.truthful {s : Service σ} {request : Request} {state state' : State σ}
    {response : Response} (h : Handles s request state response state') :
    response.Truthful s.pipeline request := by
  cases h with
  | @ready engines _ _ _ hanswer =>
    have htruthful := truthful_answer s.pipeline engines request state.memory
    rwa [hanswer] at htruthful
  | fails => exact truthful_refuse ..
  | @starts _ engines _ memory _ _ _ _ hanswer =>
    have htruthful := truthful_answer s.pipeline engines request memory
    rwa [hanswer] at htruthful

/-- Every request of a sequence gets a response that tells the truth, whatever the engines do and
however they start, and the engines are asked only what the request may cause. -/
theorem exchanges_truthful (s : Service σ) (memory : σ) (requests : List Request) :
    (s.exchanges requests { memory }).map Exchange.request = requests ∧
      ∀ x ∈ s.exchanges requests { memory },
        x.response.Truthful s.pipeline x.request ∧
          ∀ call ∈ x.calls, x.request.Causes s.pipeline call := by
  refine ⟨s.map_request_exchanges requests _, fun x hx => ?_⟩
  obtain ⟨_, _, hhandles, -, hcauses⟩ := handles_of_mem_exchanges Startup.settled_empty hx
  exact ⟨hhandles.truthful, hcauses⟩

end Service

end Fettle
