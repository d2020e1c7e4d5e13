import Fettle.Engine.Basic

/-!
# Starting the engines once

Callers who need the engines queue up. While the engines are not ready, the caller at the head of
the queue runs an attempt to start them. If the attempt fails, that caller alone gets its error,
and the next caller starts over; nothing of a failed attempt is remembered. If it succeeds, every
waiting caller gets the engines, and so does everyone who comes later. An attempt that runs longer
than the bound, if there is one, has failed.
-/

namespace Fettle

/-- One attempt to start the engines: how it ends if it may run to its end, and how long that
takes. -/
structure Attempt (α : Type) where
  /-- How the attempt ends. -/
  outcome : Except EngineError α
  /-- How long it runs. -/
  duration : Duration

/-- How an attempt ends under a bound on its time. -/
def Attempt.within {α : Type} (limit : Option Duration) (a : Attempt α) : Except EngineError α :=
  match limit with
  | none => a.outcome
  | some limit =>
    if limit.millis < a.duration.millis then .error (.startupTimeout limit) else a.outcome

/-- A start-up of engines `α`, with callers `κ`. -/
structure Startup (κ α : Type) where
  /-- The engines, once an attempt has succeeded. -/
  engines : Option α := none
  /-- Whether an attempt is running; the caller at the head of the queue runs it. -/
  running : Bool := false
  /-- The callers who wait, in the order of their arrival. -/
  waiting : List κ := []
  /-- The number of attempts started so far. -/
  attempts : Nat := 0
  /-- The answers given so far, the latest last. -/
  answers : List (κ × Except EngineError α) := []

namespace Startup

variable {κ α : Type}

/-- Whether an attempt has succeeded. -/
def isReady (s : Startup κ α) : Bool := s.engines.isSome

/-- A caller asks for the engines: it is answered at once if they are ready, and waits
otherwise. -/
def arrive (s : Startup κ α) (caller : κ) : Startup κ α :=
  match s.engines with
  | some engines => { s with answers := s.answers ++ [(caller, .ok engines)] }
  | none => { s with waiting := s.waiting ++ [caller] }

/-- The caller at the head of the queue starts an attempt. -/
def begin (s : Startup κ α) : Startup κ α :=
  { s with running := true, attempts := s.attempts + 1 }

/-- The running attempt ends. -/
def finish (s : Startup κ α) (outcome : Except EngineError α) : Startup κ α :=
  match s.waiting, outcome with
  | [], _ => { s with running := false }
  | caller :: waiting, .error e =>
    { s with running := false, waiting, answers := s.answers ++ [(caller, .error e)] }
  | waiting, .ok engines =>
    { s with
      running := false
      engines := some engines
      waiting := []
      answers := s.answers ++ waiting.map (·, .ok engines) }

/-- Let the waiting callers run attempts, one after another, until nobody waits. `provide` runs
one attempt. -/
def settle {σ : Type} (limit : Option Duration) (provide : StateM σ (Attempt α)) :
    Nat → Startup κ α → StateM σ (Startup κ α)
  | 0, s => pure s
  | n + 1, s =>
    if s.waiting.isEmpty then pure s
    else do
      let attempt ← provide
      settle limit provide n (s.begin.finish (attempt.within limit))

/-- Several callers ask at the same time, and all are answered: the start-up afterwards, whose
answers are those of these callers alone. -/
def serve {σ : Type} (limit : Option Duration) (provide : StateM σ (Attempt α))
    (callers : List κ) (s : Startup κ α) : StateM σ (Startup κ α) :=
  let s := callers.foldl arrive { s with answers := [] }
  settle limit provide s.waiting.length s

end Startup

end Fettle
