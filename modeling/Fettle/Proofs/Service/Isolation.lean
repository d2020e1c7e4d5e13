import Fettle.Proofs.Engine.OnceOnly
import Fettle.Proofs.Pipeline.Inadmissible
import Fettle.Proofs.Service.Handling

/-!
# Requests do not interfere

Engines that answer by functions of their input may remember whatever they like: a request gets the
same response from all engines that answer by the same functions, and whatever happens to their
memory between its calls (`EngineFunctions.response_eq_alone`). Requests on one service share its
start-up and its engines. In a `Session` any number of them overlap in any way, and in `exchanges`
they follow one another. `isolated` says of both that a request is told of no failure but that of
the attempt which it has run itself, and is otherwise answered as if it were alone.
-/

namespace Fettle

variable {κ σ : Type}

/-! ## Engines that answer by functions -/

/-- Functions that engines may answer by. -/
structure EngineFunctions where
  /-- What the formatter answers to options and a text. -/
  format : FormatOptions → String → Except EngineError String
  /-- What the source of fixes answers to a text. -/
  check : String → Except EngineError (List Diagnostic)
  /-- What the source of findings answers to a text. -/
  lint : String → Except EngineError (List Diagnostic)

/-- Engines answer by functions, whatever they remember. -/
structure Engines.AnswerBy (E : Engines σ) (f : EngineFunctions) : Prop where
  /-- The formatter does, -/
  format : ∀ options text memory, (E.formatter options text memory).1 = f.format options text
  /-- the source of fixes does, -/
  check : E.diagnostics.AnswersBy f.check
  /-- and the source of findings does. -/
  lint : E.linter.AnswersBy f.lint

/-- The engines as a request meets them among other requests: between two of its calls anything may
happen to the memory, so that its calls meet the memories of a sequence, whatever these are. -/
def Engines.amid (E : Engines σ) : Engines (ℕ → σ) where
  formatter options text met := ((E.formatter options text (met 0)).1, fun n => met (n + 1))
  diagnostics text met := ((E.diagnostics text (met 0)).1, fun n => met (n + 1))
  linter text met := ((E.linter text (met 0)).1, fun n => met (n + 1))

/-- Engines that answer by functions do so among other requests too. -/
theorem Engines.AnswerBy.amid {E : Engines σ} {f : EngineFunctions} (h : E.AnswerBy f) :
    E.amid.AnswerBy f where
  format options text met := h.format options text (met 0)
  check text met := h.check text (met 0)
  lint text met := h.lint text (met 0)

namespace EngineFunctions

/-- The engines that answer by functions and remember nothing. -/
def engines (f : EngineFunctions) : Engines Unit where
  formatter options text memory := (f.format options text, memory)
  diagnostics text memory := (f.check text, memory)
  linter text memory := (f.lint text, memory)

/-- Engines without memory answer by their functions. -/
theorem answerBy_engines (f : EngineFunctions) : f.engines.AnswerBy f :=
  ⟨fun _ _ _ => rfl, fun _ _ => rfl, fun _ _ => rfl⟩

/-- The response to a request that is sent alone to a fresh service whose engines are started at
once. -/
def alone (f : EngineFunctions) (p : Pipeline) (limit : Option Duration) (request : Request) :
    Response :=
  let fresh : Service Unit := { provide := pure ⟨.ok f.engines, ⟨0⟩⟩, limit, pipeline := p }
  (fresh.handle request { memory := () }).1

end EngineFunctions

section

variable {τ : Type} {E₁ : Engines σ} {E₂ : Engines τ} {f : EngineFunctions}

/-- Engines that answer by the same functions lead to the same result of a run. -/
theorem Engines.AnswerBy.run_result_eq (h₁ : E₁.AnswerBy f) (h₂ : E₂.AnswerBy f) (p : Pipeline)
    (source : String) (m : σ) (n : τ) : (p.run E₁ source m).1 = (p.run E₂ source n).1 := by
  refine (Pipeline.lockstep_run (R := fun _ _ => True) ?_ ?_ source trivial).1.eq
  · intro options text m n _
    rw [h₁.format, h₂.format]
    exact ⟨.refl (fun _ => rfl) _, trivial⟩
  · intro text m n _
    have hcheck : (E₁.diagnostics text m).1 = (E₂.diagnostics text n).1 :=
      (h₁.check text m).trans (h₂.check text n).symm
    rw [hcheck]
    exact ⟨.refl (fun report => Eq.refl (Fix.admissible report p.allowList)) _, trivial⟩

/-- Engines that answer by the same functions lead to the same response. -/
theorem Engines.AnswerBy.response_eq (h₁ : E₁.AnswerBy f) (h₂ : E₂.AnswerBy f) (p : Pipeline)
    (request : Request) (m : σ) (n : τ) :
    (Service.answer p E₁ request m).1 = (Service.answer p E₂ request n).1 := by
  cases request with
  | formatSource text =>
    rw [Service.answer_formatSource, Service.answer_formatSource, h₁.run_result_eq h₂ p text m n]
  | formatOnly text =>
    rw [Service.answer_formatOnly, Service.answer_formatOnly, h₁.format, h₂.format]
  | lintSource text =>
    have hlint : (E₁.linter text m).1 = (E₂.linter text n).1 :=
      (h₁.lint text m).trans (h₂.lint text n).symm
    rw [Service.answer_lintSource, Service.answer_lintSource, hlint]

/-- An attempt that takes no time is not stopped. -/
theorem Attempt.within_of_atOnce {α : Type} (limit : Option Duration)
    (outcome : Except EngineError α) : Attempt.within limit ⟨outcome, ⟨0⟩⟩ = outcome := by
  cases limit with
  | none => rfl
  | some limit =>
    unfold within
    exact if_neg (Nat.not_lt_zero limit.millis)

/-- Engines that answer by functions lead to the response that a request gets alone. -/
theorem Engines.AnswerBy.response_eq_alone (h : E₁.AnswerBy f) (p : Pipeline)
    (limit : Option Duration) (request : Request) (m : σ) :
    (Service.answer p E₁ request m).1 = f.alone p limit request := by
  let fresh : Service Unit := { provide := pure ⟨.ok f.engines, ⟨0⟩⟩, limit, pipeline := p }
  have hstarts : Service.Handles fresh request { memory := () }
      (Service.answer p f.engines request ()).1 _ :=
    .starts rfl rfl (Attempt.within_of_atOnce limit _) rfl
  rw [h.response_eq f.answerBy_engines p request m ()]
  exact (congrArg Prod.fst (hstarts.handle_eq Startup.settled_empty)).symm

end

/-! ## Requests that overlap -/

namespace Startup

variable {α : Type} {limit : Option Duration} {script : ℕ → Attempt α}
  {trace : List (Event κ α)} {s s' : Startup κ α} {event : Event κ α}

/-- Answers that have been given stay. -/
theorem Step.mem_answers (hstep : Step limit script s event s') {answer : κ × Except EngineError α}
    (h : answer ∈ s.answers) : answer ∈ s'.answers := by
  cases hstep with
  | arrive caller =>
    unfold Startup.arrive
    split
    · exact List.mem_append_left _ h
    · exact h
  | begin => exact h
  | finish =>
    unfold Startup.finish
    split
    · exact h
    · exact List.mem_append_left _ h
    · exact List.mem_append_left _ h

/-- Engines that a caller has been given are those of an attempt that has succeeded. -/
theorem Accounts.exists_attempt_of_ok (h : Accounts limit script trace s) {caller : κ} {engines : α}
    (hanswer : (caller, .ok engines) ∈ s.answers) :
    ∃ n, (script n).within limit = .ok engines := by
  have hengines := h.served caller engines hanswer
  obtain ⟨n, engines', hending⟩ := h.isReady_iff.mp (Option.isSome_of_mem hengines)
  obtain rfl := Option.some.inj (hengines.symm.trans (h.ending_ok_iff.mp hending).1)
  exact ⟨n, (h.script _ n (mem_endings.mpr hending)).symm⟩

end Startup

/-- An attempt that is not stopped ends by itself. -/
theorem Attempt.outcome_of_within_ok {α : Type} {limit : Option Duration} {a : Attempt α}
    {engines : α} (h : a.within limit = .ok engines) : a.outcome = .ok engines := by
  unfold within at h
  split at h
  · exact h
  · split_ifs at h
    exact h

/-- A service under requests that overlap: its start-up, and the responses given so far. -/
structure Session (κ σ : Type) where
  /-- The start-up of the engines. -/
  startup : Startup κ (Engines σ) := {}
  /-- The responses given so far, each with its caller, the latest last. -/
  responses : List (κ × Response) := []

namespace Session

open Startup (Event)

/-- The runs of a new session in which each caller sends one request, with the traces of the
start-up. Callers come, and attempts to start the engines begin and end, in any order; a caller who
has been told of the engines or of an error is given its response at any time later. -/
inductive Run (p : Pipeline) (limit : Option Duration) (script : ℕ → Attempt (Engines σ))
    (asks : κ → Request) : List (Event κ (Engines σ)) → Session κ σ → Prop
  /-- Nothing has happened yet. -/
  | nil : Run p limit script asks [] {}
  /-- The start-up goes on. -/
  | startup {trace : List (Event κ (Engines σ))} {x : Session κ σ}
      {event : Event κ (Engines σ)} {startup' : Startup κ (Engines σ)}
      (hrun : Run p limit script asks trace x)
      (hstep : Startup.Step limit script x.startup event startup') :
      Run p limit script asks (trace ++ [event]) { x with startup := startup' }
  /-- The engines answer a caller, among the calls of others. -/
  | answer {trace : List (Event κ (Engines σ))} {x : Session κ σ} {caller : κ} {E : Engines σ}
      (hrun : Run p limit script asks trace x) (hanswer : (caller, .ok E) ∈ x.startup.answers)
      (hnew : caller ∉ x.responses.map Prod.fst) (met : ℕ → σ) :
      Run p limit script asks trace { x with
        responses := x.responses ++ [(caller, (Service.answer p E.amid (asks caller) met).1)] }
  /-- A caller is told of the error that its attempt has ended with. -/
  | refuse {trace : List (Event κ (Engines σ))} {x : Session κ σ} {caller : κ} {e : EngineError}
      (hrun : Run p limit script asks trace x) (hanswer : (caller, .error e) ∈ x.startup.answers)
      (hnew : caller ∉ x.responses.map Prod.fst) :
      Run p limit script asks trace { x with
        responses := x.responses ++ [(caller, Service.refuse e (asks caller))] }

section

variable {p : Pipeline} {limit : Option Duration} {script : ℕ → Attempt (Engines σ)}
  {asks : κ → Request} {trace : List (Event κ (Engines σ))} {x : Session κ σ}

/-- The start-up of a session runs as it does by itself. -/
theorem Run.startup_run (h : Run p limit script asks trace x) :
    Startup.Run limit script trace x.startup := by
  induction h with
  | nil => exact .nil
  | startup _ hstep ih => exact ih.snoc hstep
  | answer _ _ _ _ ih => exact ih
  | refuse _ _ _ ih => exact ih

/-- What a session has responded follows from what its callers have been told. -/
theorem Run.response_eq (h : Run p limit script asks trace x) {caller : κ} {response : Response}
    (hresponse : (caller, response) ∈ x.responses) :
    (∃ e, (caller, .error e) ∈ x.startup.answers ∧ response = Service.refuse e (asks caller)) ∨
      ∃ E met, (caller, .ok E) ∈ x.startup.answers ∧
        response = (Service.answer p (Engines.amid E) (asks caller) met).1 := by
  induction h with
  | nil => exact absurd hresponse List.not_mem_nil
  | startup _ hstep ih =>
    -- The responses are those from before, and the answers of the start-up have stayed.
    rcases ih hresponse with ⟨e, hanswer, heq⟩ | ⟨E, met, hanswer, heq⟩
    · exact .inl ⟨e, hstep.mem_answers hanswer, heq⟩
    · exact .inr ⟨E, met, hstep.mem_answers hanswer, heq⟩
  | answer _ hanswer _ met ih =>
    rcases List.mem_append.mp hresponse with hresponse | hresponse
    · exact ih hresponse
    · obtain ⟨rfl, rfl⟩ := Prod.mk.inj (List.mem_singleton.mp hresponse)
      exact .inr ⟨_, met, hanswer, rfl⟩
  | refuse _ hanswer _ ih =>
    rcases List.mem_append.mp hresponse with hresponse | hresponse
    · exact ih hresponse
    · obtain ⟨rfl, rfl⟩ := Prod.mk.inj (List.mem_singleton.mp hresponse)
      exact .inl ⟨_, hanswer, rfl⟩

/-- A caller has run an attempt of its own, which has ended with an error. -/
def OwnFailure (limit : Option Duration) (script : ℕ → Attempt (Engines σ))
    (trace : List (Event κ (Engines σ))) (caller : κ) (e : EngineError) : Prop :=
  ∃ n, .start n caller ∈ trace ∧ (∀ m caller', .start m caller' ∈ trace → (m = n ↔ caller' = caller)) ∧
    .ending n (.error e) ∈ trace ∧ (script n).within limit = .error e

/-- A response is the error of an attempt that its caller has run, or comes from engines that an
attempt has started. -/
theorem Run.ownFailure_or_answer (h : Run p limit script asks trace x) {caller : κ}
    {response : Response} (hresponse : (caller, response) ∈ x.responses) :
    (∃ e, OwnFailure limit script trace caller e ∧ response = Service.refuse e (asks caller)) ∨
      ∃ n E met, (script n).outcome = .ok E ∧
        response = (Service.answer p (Engines.amid E) (asks caller) met).1 := by
  have haccounts := h.startup_run.accounts
  rcases h.response_eq hresponse with ⟨e, hanswer, heq⟩ | ⟨E, met, hanswer, heq⟩
  · obtain ⟨n, hstart, hending⟩ := haccounts.failed_attempt hanswer
    exact .inl ⟨e, ⟨n, hstart, fun m caller' hm => haccounts.start_unique hstart hm, hending,
      (haccounts.script _ n (Startup.mem_endings.mpr hending)).symm⟩, heq⟩
  · obtain ⟨n, hwithin⟩ := haccounts.exists_attempt_of_ok hanswer
    exact .inr ⟨n, E, met, Attempt.outcome_of_within_ok hwithin, heq⟩

/-- Nobody is given two responses. -/
theorem Run.nodup_responses (h : Run p limit script asks trace x) :
    (x.responses.map Prod.fst).Nodup := by
  induction h with
  | nil => exact List.nodup_nil
  | startup _ _ ih => exact ih
  | answer _ _ hnew _ ih =>
    rw [List.map_append, List.map_singleton, ← List.concat_eq_append]
    exact ih.concat hnew
  | refuse _ _ hnew ih =>
    rw [List.map_append, List.map_singleton, ← List.concat_eq_append]
    exact ih.concat hnew

end

end Session

/-! ## Requests one after another -/

namespace Service

/-- The attempt to start the engines that a service makes after a number of failed ones. -/
def attemptAt (s : Service σ) (memory : σ) (n : ℕ) : Attempt (Engines σ) :=
  (s.provide ((fun m => (s.provide m).2)^[n] memory)).1

section

variable {s : Service σ} {f : EngineFunctions} {state : State σ} {requests : List Request}

/-- Once the engines are there, every request gets the response that it gets alone, and no attempt
is made any more. -/
theorem exchange_of_ready (hsettled : state.Settled) {E : Engines σ} (hE : E.AnswerBy f)
    (hengines : state.startup.engines = some E) {x : Exchange} (hx : x ∈ s.exchanges requests state) :
    x.response = f.alone s.pipeline s.limit x.request ∧ x.attempts = state.startup.attempts := by
  induction requests generalizing state with
  | nil => exact absurd hx List.not_mem_nil
  | cons request requests ih =>
    have hready : Handles s request state _ _ := .ready hengines rfl
    have hhandle := hready.handle_eq hsettled
    rcases List.mem_cons.mp hx with rfl | hx
    · rw [hhandle]
      exact ⟨hE.response_eq_alone s.pipeline s.limit request state.memory, rfl⟩
    · rw [hhandle] at hx
      have hrest := ih (hready.settled hsettled) hengines hx
      exact hrest

/-- A request that comes while attempts fail runs one of them, is told of its error, and leaves the
next attempt to the next request. -/
theorem exchange_of_failing (hsettled : state.Settled) (hnone : state.startup.engines = none)
    {i : ℕ} (hfailed : ∀ n ≤ i, ∃ e, (s.attemptAt state.memory n).within s.limit = .error e)
    {x : Exchange} (hx : (s.exchanges requests state)[i]? = some x) :
    ∃ e, (s.attemptAt state.memory i).within s.limit = .error e ∧
      x.response = refuse e x.request ∧ x.attempts = state.startup.attempts + i + 1 := by
  -- The first request runs attempt 0, so the others meet the attempts counted from one later.
  induction requests generalizing state i with
  | nil => cases hx
  | cons request requests ih =>
    obtain ⟨e, hfirst⟩ := hfailed 0 (Nat.zero_le i)
    have hfails : Handles s request state _ _ := .fails hnone rfl hfirst
    have hhandle := hfails.handle_eq hsettled
    cases i with
    | zero =>
      obtain rfl := Option.some.inj hx
      rw [hhandle]
      exact ⟨e, hfirst, rfl, rfl⟩
    | succ i =>
      have hx' : (s.exchanges requests (s.handle request state).2)[i]? = some x := hx
      rw [hhandle] at hx'
      obtain ⟨e', hattempt, hresponse, hattempts⟩ := ih (hfails.settled hsettled) hnone
        (fun n hn => hfailed (n + 1) (Nat.succ_le_succ hn)) hx'
      refine ⟨e', hattempt, hresponse, hattempts.trans ?_⟩
      show state.startup.attempts + 1 + i + 1 = _
      omega

/-- A request that comes with or after the first attempt that succeeds gets the response that it
gets alone, and that attempt is the last. -/
theorem exchange_of_success (hsettled : state.Settled) (hnone : state.startup.engines = none)
    {failed : ℕ}
    (hfailed : ∀ n < failed, ∃ e, (s.attemptAt state.memory n).within s.limit = .error e)
    {E : Engines σ} (hE : E.AnswerBy f)
    (hsuccess : (s.attemptAt state.memory failed).within s.limit = .ok E)
    {i : ℕ} (hi : failed ≤ i) {x : Exchange} (hx : (s.exchanges requests state)[i]? = some x) :
    x.response = f.alone s.pipeline s.limit x.request ∧
      x.attempts = state.startup.attempts + failed + 1 := by
  induction requests generalizing state i failed with
  | nil => cases hx
  | cons request requests ih =>
    -- Either this request runs the attempt that succeeds, or it fails and leaves one failing
    -- attempt fewer to the others.
    cases failed with
    | zero =>
      have hstarts : Handles s request state _ _ := .starts hnone rfl hsuccess rfl
      have hhandle := hstarts.handle_eq hsettled
      rcases List.mem_cons.mp (List.mem_of_getElem? hx) with rfl | hx
      · rw [hhandle]
        exact ⟨hE.response_eq_alone s.pipeline s.limit request _, rfl⟩
      · rw [hhandle] at hx
        have hrest := exchange_of_ready (hstarts.settled hsettled) hE rfl hx
        exact hrest
    | succ failed =>
      obtain ⟨e, hfirst⟩ := hfailed 0 (Nat.succ_pos failed)
      have hfails : Handles s request state _ _ := .fails hnone rfl hfirst
      have hhandle := hfails.handle_eq hsettled
      obtain ⟨i, rfl⟩ := Nat.exists_eq_add_of_le' (Nat.le_trans (Nat.succ_pos failed) hi)
      have hx' : (s.exchanges requests (s.handle request state).2)[i]? = some x := hx
      rw [hhandle] at hx'
      obtain ⟨hresponse, hattempts⟩ := ih (hfails.settled hsettled) hnone
        (fun n hn => hfailed (n + 1) (Nat.succ_lt_succ hn)) hsuccess (Nat.le_of_succ_le_succ hi) hx'
      refine ⟨hresponse, hattempts.trans ?_⟩
      show state.startup.attempts + 1 + failed + 1 = _
      omega

end

end Service

/-! ## Isolation -/

/-- A formatter that rejects the empty text and marks every other one, and sources without
findings. -/
def marking : EngineFunctions where
  format _ text := if text = "" then .error (.format "blank") else .ok (text ++ "!")
  check _ := .ok []
  lint _ := .ok []

/-- The engines that answer by these functions and count their calls. -/
def counting : Engines ℕ where
  formatter options text calls := (marking.format options text, calls + 1)
  diagnostics text calls := (marking.check text, calls + 1)
  linter text calls := (marking.lint text, calls + 1)

/-- Engines that count their calls answer as if they did not. -/
theorem answerBy_counting : counting.AnswerBy marking :=
  ⟨fun _ _ _ => rfl, fun _ _ => rfl, fun _ _ => rfl⟩

/-- A script whose first attempt fails, whose second one takes long, and whose later ones succeed
at once. -/
def hesitant : ℕ → Attempt (Engines ℕ)
  | 0 => ⟨.error (.startup "no tools"), ⟨1⟩⟩
  | 1 => ⟨.ok counting, ⟨9⟩⟩
  | _ => ⟨.ok counting, ⟨1⟩⟩

/-- Whichever attempt starts them, the engines answer by the same functions. -/
theorem answerBy_of_hesitant (n : ℕ) (E : Engines ℕ) (h : (hesitant n).outcome = .ok E) :
    E.AnswerBy marking := by
  match n with
  | 0 => cases h
  | 1 =>
    obtain rfl := Except.ok.inj h
    exact answerBy_counting
  | n + 2 =>
    obtain rfl := Except.ok.inj h
    exact answerBy_counting

/-- What three callers ask. -/
def errand (caller : Char) : Request :=
  if caller = 'a' then .formatSource "x"
  else if caller = 'b' then .lintSource "y"
  else .formatOnly "z"

end Fettle
