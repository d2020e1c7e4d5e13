import Fettle.Pipeline
import Fettle.Proofs.Fix.Iteration

/-!
# The stages of a run

A run of the pipeline ends in one of four ways (`Pipeline.Ends`): the first formatting fails, a
check fails, the second formatting fails, or all stages succeed. Each way says which calls the
engines have received, in order, and what is left of the run. `Pipeline.run_ends` says that every
run ends in one of them. What the engines are asked is seen in the run of the engines that write it
down (`Engines.logged`).
-/

namespace Fettle

variable {σ α : Type}

/-! ## Engines that write down what they are asked -/

/-- A call to one of the engines. -/
inductive EngineCall where
  /-- The formatter is asked to format a text. -/
  | format (options : FormatOptions) (text : String)
  /-- The source of fixes is asked about a text. -/
  | check (text : String)
  /-- The source of findings is asked about a text. -/
  | lint (text : String)
deriving DecidableEq, Inhabited, Repr

/-- A call that is also written down. -/
def Call.logged (entry : EngineCall) (call : Call σ α) : Call (σ × List EngineCall) α := fun m =>
  ((call m.1).1, (call m.1).2, m.2 ++ [entry])

/-- A call that is written down has the same result, and stands at the end of the log. -/
theorem Call.logged_eq {entry : EngineCall} {call : Call σ α} {memory memory' : σ}
    {result : Except EngineError α} (h : call memory = (result, memory'))
    (calls : List EngineCall) :
    Call.logged entry call (memory, calls) = (result, memory', calls ++ [entry]) := by
  rw [Call.logged, h]

/-- The engines that also write down every call that they receive. -/
def Engines.logged (E : Engines σ) : Engines (σ × List EngineCall) where
  formatter options text := Call.logged (.format options text) (E.formatter options text)
  diagnostics text := Call.logged (.check text) (E.diagnostics text)
  linter text := Call.logged (.lint text) (E.linter text)

/-- A run of the loop that is written down among other calls asks about the same texts. -/
theorem Engines.converge_logged {E : Engines σ} {allowList : List String} {maxPasses : ℕ}
    {text : String} {memory memory' : σ} {result : Except EngineError Fix.Outcome}
    {texts : List String} (calls : List EngineCall)
    (h : Fix.converge E.diagnostics.logged allowList maxPasses text (memory, []) =
      (result, memory', texts)) :
    Fix.converge E.logged.diagnostics allowList maxPasses text (memory, calls) =
      (result, memory', calls ++ texts.map .check) := by
  -- The two logs grow by the same texts.
  have hcheck : ∀ text, Lockstep
      (fun m n => ∃ memory heard, m = (memory, calls ++ heard.map EngineCall.check) ∧
        n = (memory, heard))
      (fun a b => Fix.admissible a allowList = Fix.admissible b allowList)
      (E.logged.diagnostics text) (E.diagnostics.logged text) := by
    rintro text _ _ ⟨memory, heard, rfl, rfl⟩
    refine ⟨.refl (fun report => Eq.refl (Fix.admissible report allowList)) _,
      E.diagnostics.next text memory, heard ++ [text], ?_, rfl⟩
    rw [List.map_append, ← List.append_assoc]
    rfl
  obtain ⟨hresult, _, _, hcalls, hheard⟩ :=
    Fix.lockstep_convergeFrom hcheck maxPasses text 0 0
      ⟨memory, [], by rw [List.map_nil, List.append_nil], rfl⟩
  rw [Fix.converge] at h
  rw [h] at hresult hheard
  obtain ⟨rfl, rfl⟩ := Prod.mk.inj hheard
  exact Prod.ext hresult.eq hcalls

namespace Pipeline

/-! ## A stage of a run -/

/-- A stage whose call succeeds goes on. -/
theorem attempt_of_ok {stage : Stage} {fallback : String} {stagesRun : List Stage}
    {call : Call σ α} {memory memory' : σ} {a : α} (h : call memory = (.ok a, memory')) :
    attempt stage fallback stagesRun call memory = (.ok a, memory') := by
  show ((call memory).1.mapError _, (call memory).2) = _
  rw [h]
  rfl

/-- A stage whose call fails ends the run, with the text that can be trusted. -/
theorem attempt_of_error {stage : Stage} {fallback : String} {stagesRun : List Stage}
    {call : Call σ α} {memory memory' : σ} {e : EngineError}
    (h : call memory = (.error e, memory')) :
    attempt stage fallback stagesRun call memory =
      (.error ⟨stage, e, fallback, stagesRun⟩, memory') := by
  show ((call memory).1.mapError _, (call memory).2) = _
  rw [h]
  rfl

section

variable {p : Pipeline} {E : Engines σ} {source formatted reformatted : String}
  {fixed : Fix.Outcome} {e : EngineError} {memory memory₁ memory₂ memory₃ : σ}

/-- A run stops if the first formatting fails. -/
theorem run_of_format_error (h : E.formatter p.format source memory = (.error e, memory₁)) :
    p.run E source memory = (.error ⟨.format, e, source, []⟩, memory₁) :=
  Call.bind_of_error (attempt_of_error h)

/-- A run stops if the source of fixes fails. -/
theorem run_of_check_error (hformat : E.formatter p.format source memory = (.ok formatted, memory₁))
    (h : Fix.converge E.diagnostics p.allowList p.maxPasses formatted memory₁ =
      (.error e, memory₂)) :
    p.run E source memory = (.error ⟨.fix, e, formatted, [.format]⟩, memory₂) := by
  rw [run, Call.bind_of_ok (attempt_of_ok hformat), Call.bind_of_error (attempt_of_error h)]

/-- A run stops if the second formatting fails. -/
theorem run_of_reformat_error
    (hformat : E.formatter p.format source memory = (.ok formatted, memory₁))
    (hfix : Fix.converge E.diagnostics p.allowList p.maxPasses formatted memory₁ =
      (.ok fixed, memory₂))
    (h : E.formatter p.format fixed.text memory₂ = (.error e, memory₃)) :
    p.run E source memory = (.error ⟨.reformat, e, source, [.format, .fix]⟩, memory₃) := by
  rw [run, Call.bind_of_ok (attempt_of_ok hformat), Call.bind_of_ok (attempt_of_ok hfix),
    Call.bind_of_error (attempt_of_error h)]

/-- A run whose stages all succeed tells what they have done. -/
theorem run_of_ok (hformat : E.formatter p.format source memory = (.ok formatted, memory₁))
    (hfix : Fix.converge E.diagnostics p.allowList p.maxPasses formatted memory₁ =
      (.ok fixed, memory₂))
    (h : E.formatter p.format fixed.text memory₂ = (.ok reformatted, memory₃)) :
    p.run E source memory =
      (.ok ⟨reformatted, decide (reformatted ≠ source), [.format, .fix, .reformat], fixed.passes,
        fixed.applied, decide (fixed.state = .exhausted)⟩, memory₃) := by
  rw [run, Call.bind_of_ok (attempt_of_ok hformat), Call.bind_of_ok (attempt_of_ok hfix),
    Call.bind_of_ok (attempt_of_ok h)]
  rfl

end

/-! ## How a run ends -/

/-- How fixing a text ends: the texts that are checked, what the engines remember then, and the
result. -/
structure Fixes (p : Pipeline) (E : Engines σ) (text : String) (memory : σ)
    (checked : List String) (memory' : σ) (result : Except EngineError Fix.Outcome) : Prop where
  /-- The loop of passes comes to the result. -/
  converge : Fix.converge E.diagnostics p.allowList p.maxPasses text memory = (result, memory')
  /-- The result is that of the iteration of passes, which stops at the ceiling, at a failing check
  or at a fixed point; the texts are those before its turns. -/
  iterates : ∃ k checks, Fix.Performed E.diagnostics p.allowList ⟨text, memory⟩ k ∧
    Fix.Ends E.diagnostics p.allowList p.maxPasses ⟨text, memory⟩ k checks result ∧
    checked = Fix.textsBefore E.diagnostics p.allowList ⟨text, memory⟩ checks

/-- How a run on a source text ends: the calls that the engines receive, what they remember then,
and the result. -/
inductive Ends (p : Pipeline) (E : Engines σ) (source : String) (memory : σ) :
    List EngineCall → σ → Except Failure Outcome → Prop
  /-- The formatter rejects the source, and no engine is called again. -/
  | formatFails {e : EngineError} {memory₁ : σ}
      (h : E.formatter p.format source memory = (.error e, memory₁)) :
      Ends p E source memory [.format p.format source] memory₁
        (.error ⟨.format, e, source, []⟩)
  /-- A check fails, maybe after some passes. The formatted text is left, and the formatter is not
  called again. -/
  | checkFails {formatted : String} {checked : List String} {e : EngineError} {memory₁ memory₂ : σ}
      (hformat : E.formatter p.format source memory = (.ok formatted, memory₁))
      (h : Fixes p E formatted memory₁ checked memory₂ (.error e)) :
      Ends p E source memory (.format p.format source :: checked.map .check) memory₂
        (.error ⟨.fix, e, formatted, [.format]⟩)
  /-- The formatter rejects the fixed text, and the source is left. -/
  | reformatFails {formatted : String} {checked : List String} {fixed : Fix.Outcome}
      {e : EngineError} {memory₁ memory₂ memory₃ : σ}
      (hformat : E.formatter p.format source memory = (.ok formatted, memory₁))
      (hfix : Fixes p E formatted memory₁ checked memory₂ (.ok fixed))
      (h : E.formatter p.format fixed.text memory₂ = (.error e, memory₃)) :
      Ends p E source memory
        (.format p.format source :: checked.map .check ++ [.format p.format fixed.text]) memory₃
        (.error ⟨.reformat, e, source, [.format, .fix]⟩)
  /-- All stages succeed. -/
  | succeeds {formatted reformatted : String} {checked : List String} {fixed : Fix.Outcome}
      {memory₁ memory₂ memory₃ : σ}
      (hformat : E.formatter p.format source memory = (.ok formatted, memory₁))
      (hfix : Fixes p E formatted memory₁ checked memory₂ (.ok fixed))
      (h : E.formatter p.format fixed.text memory₂ = (.ok reformatted, memory₃)) :
      Ends p E source memory
        (.format p.format source :: checked.map .check ++ [.format p.format fixed.text]) memory₃
        (.ok ⟨reformatted, decide (reformatted ≠ source), [.format, .fix, .reformat],
          fixed.passes, fixed.applied, decide (fixed.state = .exhausted)⟩)

/-- Fixing a text ends somehow, and engines that are called for it write down its checks. -/
theorem exists_fixes (p : Pipeline) (E : Engines σ) (text : String) (memory : σ) :
    ∃ checked memory' result, Fixes p E text memory checked memory' result ∧
      ∀ calls, Fix.converge E.logged.diagnostics p.allowList p.maxPasses text (memory, calls) =
        (result, memory', calls ++ checked.map .check) := by
  obtain ⟨k, checks, result, hpasses, hends, hrun⟩ :=
    Fix.convergeFrom_ends E.diagnostics p.allowList p.maxPasses ⟨text, memory⟩ []
  exact ⟨_, _, result, ⟨Fix.converge_of_logged hrun, k, checks, hpasses, hends, rfl⟩,
    fun calls => Engines.converge_logged calls hrun⟩

/-- Every run ends in one of the four ways: the stages run in order, the first failure stops them,
and what it leaves is the formatted text if a check has failed and the source otherwise. The engines
receive the calls of the stages up to there and no other calls. -/
theorem run_ends (p : Pipeline) (E : Engines σ) (source : String) (memory : σ) :
    ∃ calls memory' result, Ends p E source memory calls memory' result ∧
      p.run E source memory = (result, memory') ∧
      p.run E.logged source (memory, []) = (result, memory', calls) := by
  have hlogged : ∀ {text : String} {m m' : σ} {result : Except EngineError String}
      (calls : List EngineCall), E.formatter p.format text m = (result, m') →
      E.logged.formatter p.format text (m, calls) =
        (result, m', calls ++ [.format p.format text]) :=
    fun calls h => Call.logged_eq h calls
  rcases hformat : E.formatter p.format source memory with ⟨e | formatted, memory₁⟩
  · exact ⟨_, _, _, .formatFails hformat, run_of_format_error hformat,
      run_of_format_error (hlogged [] hformat)⟩
  · obtain ⟨checked, memory₂, e | fixed, hfix, hchecks⟩ := exists_fixes p E formatted memory₁
    · exact ⟨_, _, _, .checkFails hformat hfix, run_of_check_error hformat hfix.converge,
        run_of_check_error (hlogged [] hformat) (hchecks _)⟩
    · rcases h : E.formatter p.format fixed.text memory₂ with ⟨e | reformatted, memory₃⟩
      · exact ⟨_, _, _, .reformatFails hformat hfix h,
          run_of_reformat_error hformat hfix.converge h,
          run_of_reformat_error (hlogged [] hformat) (hchecks _) (hlogged _ h)⟩
      · exact ⟨_, _, _, .succeeds hformat hfix h, run_of_ok hformat hfix.converge h,
          run_of_ok (hlogged [] hformat) (hchecks _) (hlogged _ h)⟩

end Pipeline

end Fettle
