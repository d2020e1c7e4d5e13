import Fettle.Engine.Startup
import Fettle.Service.Response

/-!
# The service

A service starts its engines on the first request and keeps them. It formats with all stages,
formats alone, or reports what the lint engine finds; it never fails, since every failure is
folded into a response. The workers that run the engines are left out: requests are answered as by
workers that are never cancelled and never break down, and a worker that does would make one more
failed response, with a message of its own.
-/

namespace Fettle

/-- What is asked of a service. -/
inductive Request where
  /-- Run all stages on a text. -/
  | formatSource (text : String)
  /-- Run the formatter alone. -/
  | formatOnly (text : String)
  /-- Report what the lint engine finds. -/
  | lintSource (text : String)
deriving DecidableEq, Inhabited, Repr

/-- What a service answers. -/
inductive Response where
  /-- The answer to a formatting request. -/
  | format (response : FormatResponse)
  /-- The answer to a lint request. -/
  | lint (response : LintResponse)
deriving DecidableEq, Inhabited, Repr

namespace Response

/-- A response as a JSON value. -/
def toJson : Response → Json.Value
  | format r => r.toJson
  | lint r => r.toJson

end Response

/-- How a service is set up. -/
structure Service (σ : Type) where
  /-- How its engines are started. -/
  provide : StateM σ (Attempt (Engines σ))
  /-- The bound on an attempt to start them. -/
  limit : Option Duration
  /-- What it does with a text. -/
  pipeline : Pipeline

namespace Service

variable {σ : Type}

/-- The state of a service: its start-up, and the memory of its engines. -/
structure State (σ : Type) where
  /-- The start-up of the engines. -/
  startup : Startup Unit (Engines σ) := {}
  /-- The memory of the engines. -/
  memory : σ

/-- Answer a request for all stages. -/
def formatSource (p : Pipeline) (engines : Engines σ) (text : String) :
    StateM σ FormatResponse := do
  match ← (p.run engines text).run with
  | .ok outcome => pure (.ofOutcome outcome)
  | .error failure => pure (.failure text failure.error)

/-- Answer a request for formatting alone. -/
def formatOnly (p : Pipeline) (engines : Engines σ) (text : String) :
    StateM σ FormatResponse := do
  match ← (engines.formatter p.format text).run with
  | .ok formatted => pure (.ofFormatted text formatted)
  | .error error => pure (.failure text error)

/-- Answer a lint request. -/
def lintSource (engines : Engines σ) (text : String) : StateM σ LintResponse := do
  match ← (engines.linter text).run with
  | .ok report => pure (.ofReport report)
  | .error error => pure (.failure error)

/-- Answer a request once the engines are ready. -/
def answer (p : Pipeline) (engines : Engines σ) : Request → StateM σ Response
  | .formatSource text => .format <$> formatSource p engines text
  | .formatOnly text => .format <$> formatOnly p engines text
  | .lintSource text => .lint <$> lintSource engines text

/-- Answer a request whose attempt to start the engines failed. -/
def refuse (error : EngineError) : Request → Response
  | .formatSource text => .format (.failure text error)
  | .formatOnly text => .format (.failure text error)
  | .lintSource _ => .lint (.failure error)

/-- Answer one request on its own. -/
def handle (s : Service σ) (request : Request) : StateM (State σ) Response := do
  let state ← get
  let (startup, memory) := (state.startup.serve s.limit s.provide [()]).run state.memory
  match startup.answers.head? with
  | some (_, .ok engines) =>
    let (response, memory) := (answer s.pipeline engines request).run memory
    set (State.mk startup memory)
    pure response
  | some (_, .error error) =>
    set (State.mk startup memory)
    pure (refuse error request)
  | none =>
    -- Every caller is answered, so this does not happen.
    set (State.mk startup memory)
    pure (refuse (.startup "") request)

end Service

end Fettle
