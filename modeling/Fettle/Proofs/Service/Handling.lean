import Fettle.Proofs.Engine.Interleaving
import Fettle.Proofs.Pipeline.Stages
import Fettle.Service.Basic

/-!
# How a request is handled

Between two requests nobody waits for the engines of a service (`State.Settled`). A request that
comes then is handled in one of three ways (`Service.Handles`): the engines are there and answer, or
the request runs an attempt to start them, which fails or succeeds. Requests that are sent one after
another make up a list of exchanges (`Service.exchanges`), each with the calls that the engines
receive for it. These are seen in the service whose engines write them down (`Service.logged`).
-/

namespace Fettle

variable {κ α β σ : Type}

/-! ## One caller -/

namespace Startup

/-- Nobody waits, and no attempt is running. -/
structure Settled (s : Startup κ α) : Prop where
  /-- Nobody waits. -/
  waiting : s.waiting = []
  /-- No attempt is running. -/
  running : s.running = false

/-- At the start nobody waits. -/
theorem settled_empty : ({} : Startup κ α).Settled := ⟨rfl, rfl⟩

section

variable {s : Startup κ α} {limit : Option Duration} {provide : StateM σ (Attempt α)} {caller : κ}
  {attempt : Attempt α} {engines : α} {memory memory' : σ}

/-- A caller who comes once the engines are there is given them. -/
theorem serve_of_ready (h : s.Settled) (hengines : s.engines = some engines) :
    s.serve limit provide [caller] memory =
      ({ s with answers := [(caller, .ok engines)] }, memory) := by
  obtain ⟨_, _, _, _, _⟩ := s
  obtain ⟨rfl, rfl⟩ := h
  obtain rfl := hengines
  rfl

/-- A caller who comes before runs an attempt, and is told how it ends. -/
theorem serve_of_none (h : s.Settled) (hnone : s.engines = none)
    (hprovide : provide memory = (attempt, memory')) :
    s.serve limit provide [caller] memory =
      (({ running := true, waiting := [caller], attempts := s.attempts + 1 } : Startup κ α).finish
        (attempt.within limit), memory') := by
  obtain ⟨_, _, _, _, _⟩ := s
  obtain ⟨rfl, rfl⟩ := h
  obtain rfl := hnone
  obtain ⟨rfl, rfl⟩ := Prod.mk.inj hprovide
  rfl

/-- If the attempt fails, the caller is given the error. -/
theorem serve_of_fails {e : EngineError} (h : s.Settled) (hnone : s.engines = none)
    (hprovide : provide memory = (attempt, memory')) (houtcome : attempt.within limit = .error e) :
    s.serve limit provide [caller] memory =
      ({ s with attempts := s.attempts + 1, answers := [(caller, .error e)] }, memory') := by
  rw [serve_of_none h hnone hprovide, houtcome, finish_error rfl, h.waiting, h.running, hnone]
  rfl

/-- If the attempt succeeds, the caller is given the engines, and they are kept. -/
theorem serve_of_starts (h : s.Settled) (hnone : s.engines = none)
    (hprovide : provide memory = (attempt, memory'))
    (houtcome : attempt.within limit = .ok engines) :
    s.serve limit provide [caller] memory =
      ({ s with
        engines := some engines
        attempts := s.attempts + 1
        answers := [(caller, .ok engines)] }, memory') := by
  rw [serve_of_none h hnone hprovide, houtcome, finish_ok rfl, h.waiting, h.running]
  rfl

end

end Startup

namespace Service

/-! ## One request -/

/-- Nobody waits for the engines. -/
abbrev State.Settled (state : State σ) : Prop := state.startup.Settled

/-- How a service handles a request while nobody waits: with which response, and which state it
leaves. -/
inductive Handles (s : Service σ) (request : Request) (state : State σ) :
    Response → State σ → Prop
  /-- The engines are there, and answer. -/
  | ready {engines : Engines σ} {response : Response} {memory : σ}
      (h : state.startup.engines = some engines)
      (hanswer : answer s.pipeline engines request state.memory = (response, memory)) :
      Handles s request state response
        ⟨{ state.startup with answers := [((), .ok engines)] }, memory⟩
  /-- The request runs an attempt to start the engines, which fails. -/
  | fails {attempt : Attempt (Engines σ)} {memory : σ} {e : EngineError}
      (h : state.startup.engines = none) (hprovide : s.provide state.memory = (attempt, memory))
      (houtcome : attempt.within s.limit = .error e) :
      Handles s request state (refuse e request)
        ⟨{ state.startup with
          attempts := state.startup.attempts + 1, answers := [((), .error e)] }, memory⟩
  /-- The request runs an attempt to start the engines, which succeeds, and they answer. -/
  | starts {attempt : Attempt (Engines σ)} {engines : Engines σ} {response : Response}
      {memory memory' : σ} (h : state.startup.engines = none)
      (hprovide : s.provide state.memory = (attempt, memory))
      (houtcome : attempt.within s.limit = .ok engines)
      (hanswer : answer s.pipeline engines request memory = (response, memory')) :
      Handles s request state response
        ⟨{ state.startup with
          engines := some engines, attempts := state.startup.attempts + 1,
          answers := [((), .ok engines)] }, memory'⟩

section

variable {s : Service σ} {request : Request} {state state' : State σ} {response : Response}
  {startup : Startup Unit (Engines σ)} {memory : σ}

/-- Engines that the caller is given answer the request. -/
theorem handle_of_ok {engines : Engines σ}
    (hserve : state.startup.serve s.limit s.provide [()] state.memory = (startup, memory))
    (hanswers : startup.answers = [((), .ok engines)]) :
    s.handle request state = ((answer s.pipeline engines request memory).1,
      ⟨startup, (answer s.pipeline engines request memory).2⟩) := by
  simp only [handle, bind, StateT.bind, get, getThe, MonadStateOf.get, StateT.get, pure,
    StateT.run]
  rw [hserve]
  simp only [hanswers]
  rfl

/-- An error that the caller is given is the response. -/
theorem handle_of_error {e : EngineError}
    (hserve : state.startup.serve s.limit s.provide [()] state.memory = (startup, memory))
    (hanswers : startup.answers = [((), .error e)]) :
    s.handle request state = (refuse e request, ⟨startup, memory⟩) := by
  simp only [handle, bind, StateT.bind, get, getThe, MonadStateOf.get, StateT.get, pure,
    StateT.run]
  rw [hserve]
  simp only [hanswers]
  rfl

/-- The three ways say what the service does. -/
theorem Handles.handle_eq (h : Handles s request state response state')
    (hsettled : state.Settled) : s.handle request state = (response, state') := by
  cases h with
  | ready hengines hanswer =>
    rw [handle_of_ok (Startup.serve_of_ready hsettled hengines) rfl, hanswer]
  | fails hnone hprovide houtcome =>
    exact handle_of_error (Startup.serve_of_fails hsettled hnone hprovide houtcome) rfl
  | starts hnone hprovide houtcome hanswer =>
    rw [handle_of_ok (Startup.serve_of_starts hsettled hnone hprovide houtcome) rfl, hanswer]

/-- A request is handled in one of the three ways. -/
theorem handles_handle (s : Service σ) (request : Request) (hsettled : state.Settled) :
    Handles s request state (s.handle request state).1 (s.handle request state).2 := by
  have hsome : ∃ response state', Handles s request state response state' := by
    cases hengines : state.startup.engines with
    | some engines => exact ⟨_, _, .ready hengines rfl⟩
    | none =>
      cases houtcome : (s.provide state.memory).1.within s.limit with
      | error e => exact ⟨_, _, .fails hengines rfl houtcome⟩
      | ok engines => exact ⟨_, _, .starts hengines rfl houtcome rfl⟩
  obtain ⟨response, state', h⟩ := hsome
  rw [h.handle_eq hsettled]
  exact h

/-- Nobody waits once a request is handled. -/
theorem Handles.settled (h : Handles s request state response state') (hsettled : state.Settled) :
    state'.Settled := by
  cases h with
  | ready => exact ⟨hsettled.waiting, hsettled.running⟩
  | fails => exact ⟨hsettled.waiting, hsettled.running⟩
  | starts => exact ⟨hsettled.waiting, hsettled.running⟩

end

/-! ## Ready engines -/

end Service

/-- The response to a request for all stages, when the run has come to a result. -/
def FormatResponse.ofRun (source : String) :
    Except Pipeline.Failure Pipeline.Outcome → FormatResponse
  | .ok outcome => .ofOutcome outcome
  | .error failure => .failure source failure.error

/-- The response to a request for formatting alone, when the formatter has answered. -/
def FormatResponse.ofAnswer (source : String) : Except EngineError String → FormatResponse
  | .ok formatted => .ofFormatted source formatted
  | .error e => .failure source e

/-- The response to a lint request, when the source of findings has answered. -/
def LintResponse.ofAnswer : Except EngineError (List Diagnostic) → LintResponse
  | .ok report => .ofReport report
  | .error e => .failure e

namespace Service

section

variable (p : Pipeline) (E : Engines σ) (text : String) (memory : σ)

/-- A request for all stages is answered by how the run ends. -/
theorem answer_formatSource :
    answer p E (.formatSource text) memory =
      (.format (.ofRun text (p.run E text memory).1), (p.run E text memory).2) := by
  simp only [answer, formatSource, Functor.map, StateT.map, bind, StateT.bind, pure, ExceptT.run]
  rcases p.run E text memory with ⟨_ | _, _⟩ <;> rfl

/-- A request for formatting alone is answered by what the formatter answers. -/
theorem answer_formatOnly :
    answer p E (.formatOnly text) memory =
      (.format (.ofAnswer text (E.formatter p.format text memory).1),
        (E.formatter p.format text memory).2) := by
  simp only [answer, formatOnly, Functor.map, StateT.map, bind, StateT.bind, pure, ExceptT.run]
  rcases E.formatter p.format text memory with ⟨_ | _, _⟩ <;> rfl

/-- A lint request is answered by what the source of findings answers. -/
theorem answer_lintSource :
    answer p E (.lintSource text) memory =
      (.lint (.ofAnswer (E.linter text memory).1), (E.linter text memory).2) := by
  simp only [answer, lintSource, Functor.map, StateT.map, bind, StateT.bind, pure, ExceptT.run]
  rcases E.linter text memory with ⟨_ | _, _⟩ <;> rfl

end

/-! ## The calls for a request -/

end Service

/-- The calls that a request may cause: for all stages, to the formatter and to the source of fixes;
for formatting alone, to the formatter; for findings, to the source of findings. -/
inductive Request.Causes (p : Pipeline) : Request → EngineCall → Prop
  /-- A request for all stages causes calls to the formatter, -/
  | format (source text : String) : Causes p (.formatSource source) (.format p.format text)
  /-- and to the source of fixes. -/
  | check (source text : String) : Causes p (.formatSource source) (.check text)
  /-- A request for formatting alone causes a call on its text, -/
  | formatOnly (source : String) : Causes p (.formatOnly source) (.format p.format source)
  /-- and so does a lint request, to the source of findings. -/
  | lint (source : String) : Causes p (.lintSource source) (.lint source)

/-- The calls of a run are those that a request for all stages may cause. -/
theorem Pipeline.Ends.causes {p : Pipeline} {E : Engines σ} {source : String} {memory memory' : σ}
    {calls : List EngineCall} {result : Except Failure Outcome}
    (h : Ends p E source memory calls memory' result) :
    ∀ call ∈ calls, (Request.formatSource source).Causes p call := by
  have hchecks (checked : List String) : ∀ call ∈ checked.map EngineCall.check,
      (Request.formatSource source).Causes p call := by
    rw [List.forall_mem_map]
    exact fun text _ => .check source text
  have hrest (checked : List String) (text : String) :
      ∀ call ∈ checked.map EngineCall.check ++ [.format p.format text],
        (Request.formatSource source).Causes p call :=
    List.forall_mem_append.mpr
      ⟨hchecks checked, List.forall_mem_singleton.mpr (.format source text)⟩
  cases h with
  | formatFails => exact List.forall_mem_singleton.mpr (.format source source)
  | checkFails => exact List.forall_mem_cons.mpr ⟨.format source source, hchecks _⟩
  | reformatFails => exact List.forall_mem_cons.mpr ⟨.format source source, hrest _ _⟩
  | succeeds => exact List.forall_mem_cons.mpr ⟨.format source source, hrest _ _⟩

namespace Service

/-- Engines that write down what they are asked answer the same, and are asked only what the request
may cause. -/
theorem answer_logged (p : Pipeline) (E : Engines σ) (request : Request) (memory : σ) :
    ∃ calls, (∀ call ∈ calls, request.Causes p call) ∧
      answer p E.logged request (memory, []) =
        ((answer p E request memory).1, (answer p E request memory).2, calls) := by
  cases request with
  | formatSource text =>
    obtain ⟨calls, memory', result, hends, hrun, hlogged⟩ := p.run_ends E text memory
    refine ⟨calls, hends.causes, ?_⟩
    rw [answer_formatSource, answer_formatSource, hrun, hlogged]
  | formatOnly text =>
    refine ⟨[.format p.format text], List.forall_mem_singleton.mpr (.formatOnly text), ?_⟩
    rw [answer_formatOnly, answer_formatOnly]
    rfl
  | lintSource text =>
    refine ⟨[.lint text], List.forall_mem_singleton.mpr (.lint text), ?_⟩
    rw [answer_lintSource, answer_lintSource]
    rfl

end Service

/-! ## Services that write down what their engines are asked -/

/-- The attempt whose engines are translated. -/
def Attempt.map (f : α → β) (a : Attempt α) : Attempt β := ⟨a.outcome.map f, a.duration⟩

/-- A change of the engines makes no difference to whether the attempt is in time. -/
theorem Attempt.within_map (limit : Option Duration) (f : α → β) (a : Attempt α) :
    (a.map f).within limit = (a.within limit).map f := by
  cases limit with
  | none => rfl
  | some limit =>
    unfold Attempt.within Attempt.map
    simp only
    split_ifs <;> rfl

/-- The start-up whose engines are translated. -/
def Startup.map (f : α → β) (s : Startup κ α) : Startup κ β where
  engines := s.engines.map f
  running := s.running
  waiting := s.waiting
  attempts := s.attempts
  answers := s.answers.map fun answer => (answer.1, answer.2.map f)

/-- A change of the engines makes no difference to who waits. -/
theorem Startup.Settled.map {s : Startup κ α} (h : s.Settled) (f : α → β) : (s.map f).Settled :=
  ⟨h.waiting, h.running⟩

namespace Service

/-- The service whose engines also write down every call that they receive. -/
def logged (s : Service σ) : Service (σ × List EngineCall) where
  provide m := ((s.provide m.1).1.map Engines.logged, (s.provide m.1).2, m.2)
  limit := s.limit
  pipeline := s.pipeline

/-- The state of the service that writes calls down, when these have been written down so far. -/
def State.logged (state : State σ) (calls : List EngineCall) : State (σ × List EngineCall) :=
  ⟨state.startup.map Engines.logged, state.memory, calls⟩

/-- Engines that write down their calls start as they do otherwise, with nothing written down. -/
theorem provide_logged (s : Service σ) {memory memory' : σ} {attempt : Attempt (Engines σ)}
    (h : s.provide memory = (attempt, memory')) :
    s.logged.provide (memory, []) = (attempt.map Engines.logged, memory', []) := by
  show ((s.provide memory).1.map Engines.logged, (s.provide memory).2, []) = _
  rw [h]

/-- An attempt ends as it does otherwise, with engines that write down their calls. -/
theorem within_logged (s : Service σ) {attempt : Attempt (Engines σ)}
    {outcome : Except EngineError (Engines σ)} (h : attempt.within s.limit = outcome) :
    (attempt.map Engines.logged).within s.logged.limit = outcome.map Engines.logged := by
  rw [Attempt.within_map, ← h]
  rfl

/-- A service that writes calls down gives the same responses and goes through the same states, and
writes down only what the request may cause. -/
theorem handle_logged (s : Service σ) (request : Request) {state : State σ}
    (hsettled : state.Settled) :
    ∃ calls, (∀ call ∈ calls, request.Causes s.pipeline call) ∧
      s.logged.handle request (state.logged []) =
        ((s.handle request state).1, (s.handle request state).2.logged calls) := by
  have h := handles_handle s request hsettled
  generalize s.handle request state = handled at h
  obtain ⟨response, state'⟩ := handled
  have hlogged : (state.logged []).Settled := hsettled.map Engines.logged
  -- How the request is handled decides the response, so it is enough to handle it in the same way.
  suffices hsome : ∃ calls, (∀ call ∈ calls, request.Causes s.pipeline call) ∧
      Handles s.logged request (state.logged []) response (state'.logged calls) by
    obtain ⟨calls, hcauses, hhandles⟩ := hsome
    exact ⟨calls, hcauses, hhandles.handle_eq hlogged⟩
  cases h with
  | ready hengines hanswer =>
    obtain ⟨calls, hcauses, hcalls⟩ := answer_logged s.pipeline _ request state.memory
    rw [hanswer] at hcalls
    exact ⟨calls, hcauses, .ready (congrArg (Option.map Engines.logged) hengines) hcalls⟩
  | fails hnone hprovide houtcome =>
    exact ⟨[], fun _ h => absurd h List.not_mem_nil,
      .fails (congrArg (Option.map Engines.logged) hnone) (s.provide_logged hprovide)
        (s.within_logged houtcome)⟩
  | starts hnone hprovide houtcome hanswer =>
    obtain ⟨calls, hcauses, hcalls⟩ := answer_logged s.pipeline _ request _
    rw [hanswer] at hcalls
    exact ⟨calls, hcauses,
      .starts (congrArg (Option.map Engines.logged) hnone) (s.provide_logged hprovide)
        (s.within_logged houtcome) hcalls⟩

/-! ## Requests one after another -/

end Service

/-- A request to a service, and what comes of it. -/
structure Exchange where
  /-- The request. -/
  request : Request
  /-- The response. -/
  response : Response
  /-- The calls that the engines receive for it, in order. -/
  calls : List EngineCall
  /-- The number of attempts to start the engines so far. -/
  attempts : ℕ
deriving DecidableEq, Inhabited, Repr

namespace Service

/-- What comes of requests that are sent one after another. -/
def exchanges (s : Service σ) : List Request → State σ → List Exchange
  | [], _ => []
  | request :: requests, state =>
    let handled := s.handle request state
    { request
      response := handled.1
      calls := (s.logged.handle request (state.logged [])).2.memory.2
      attempts := handled.2.startup.attempts } :: s.exchanges requests handled.2

/-- What comes of a request that is sent at some point is what comes of it in the state there. -/
theorem handles_of_mem_exchanges {s : Service σ} {requests : List Request} {state : State σ}
    (hsettled : state.Settled) {x : Exchange} (hx : x ∈ s.exchanges requests state) :
    ∃ before after, Handles s x.request before x.response after ∧
      x.attempts = after.startup.attempts ∧
      ∀ call ∈ x.calls, x.request.Causes s.pipeline call := by
  induction requests generalizing state with
  | nil => exact absurd hx List.not_mem_nil
  | cons request requests ih =>
    have h := handles_handle s request hsettled
    rcases List.mem_cons.mp hx with rfl | hx
    · obtain ⟨calls, hcauses, hlogged⟩ := handle_logged s request hsettled
      refine ⟨state, _, h, rfl, ?_⟩
      rw [hlogged]
      exact hcauses
    · exact ih (h.settled hsettled) hx

/-- There is one exchange for each request, in order. -/
theorem map_request_exchanges (s : Service σ) (requests : List Request) (state : State σ) :
    (s.exchanges requests state).map Exchange.request = requests := by
  induction requests generalizing state with
  | nil => rfl
  | cons request requests ih => exact congrArg (request :: ·) (ih _)

end Service

end Fettle
