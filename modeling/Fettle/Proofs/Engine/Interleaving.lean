import Fettle.Engine.Startup
import Mathlib.Data.List.Nodup

/-!
# Start-ups step by step

Callers arrive at any time, also while an attempt is running. When none is running, the caller at
the head of the queue may start one, and a running attempt may end, in the way that the script says
and the bound on its time allows. A run is any interleaving of such steps. Its trace tells the
attempts apart by their numbers, which count from 0 in the order in which they are started.
-/

namespace Fettle.Startup

variable {κ α : Type}

/-- What happens in one step. -/
inductive Event (κ α : Type) where
  /-- A caller asks for the engines. -/
  | arrival (caller : κ)
  /-- A caller starts an attempt. -/
  | start (attempt : ℕ) (caller : κ)
  /-- An attempt ends. -/
  | ending (attempt : ℕ) (outcome : Except EngineError α)

/-- The steps of a start-up under a bound on the time of each attempt, if there is one, when
`script n` is the attempt with the number `n`. -/
inductive Step (limit : Option Duration) (script : ℕ → Attempt α) :
    Startup κ α → Event κ α → Startup κ α → Prop
  /-- A caller who has not asked before asks for the engines. -/
  | arrive {s : Startup κ α} (caller : κ) (hanswered : caller ∉ s.answers.map Prod.fst)
      (hwaiting : caller ∉ s.waiting) : Step limit script s (.arrival caller) (s.arrive caller)
  /-- The caller at the head of the queue starts an attempt while none is running. -/
  | begin {s : Startup κ α} {caller : κ} {waiting : List κ} (hrunning : s.running = false)
      (hwaiting : s.waiting = caller :: waiting) :
      Step limit script s (.start s.attempts caller) s.begin
  /-- The running attempt ends. -/
  | finish {s : Startup κ α} {n : ℕ} (hrunning : s.running = true) (hn : s.attempts = n + 1) :
      Step limit script s (.ending n ((script n).within limit))
        (s.finish ((script n).within limit))

/-- The runs of a new start-up, with their traces. -/
inductive Run (limit : Option Duration) (script : ℕ → Attempt α) :
    List (Event κ α) → Startup κ α → Prop
  /-- Nothing has happened yet. -/
  | nil : Run limit script [] {}
  /-- A run goes on with a step. -/
  | snoc {trace : List (Event κ α)} {s s' : Startup κ α} {event : Event κ α}
      (hrun : Run limit script trace s) (hstep : Step limit script s event s') :
      Run limit script (trace ++ [event]) s'

/-- An attempt is in flight if it has been started and has not ended. -/
def InFlight (trace : List (Event κ α)) (n : ℕ) : Prop :=
  (∃ caller, .start n caller ∈ trace) ∧ ∀ outcome, .ending n outcome ∉ trace

/-! ## The attempts of a trace -/

/-- The started attempt, if the event is a start: who started it, and its number. -/
def Event.started? : Event κ α → Option (κ × ℕ)
  | start n caller => some (caller, n)
  | _ => none

/-- The ended attempt, if the event is an ending: how it ended, and its number. -/
def Event.ended? : Event κ α → Option (Except EngineError α × ℕ)
  | ending n outcome => some (outcome, n)
  | _ => none

/-- The attempts started in a trace, in order. -/
def starts (trace : List (Event κ α)) : List (κ × ℕ) := trace.filterMap Event.started?

/-- The attempts ended in a trace, in order. -/
def endings (trace : List (Event κ α)) : List (Except EngineError α × ℕ) :=
  trace.filterMap Event.ended?

/-- A further item of a numbered list gets the next number. -/
theorem zipIdx_concat {β : Type} (items : List β) (item : β) :
    (items ++ [item]).zipIdx = items.zipIdx ++ [(item, items.length)] := by
  rw [List.zipIdx_append, Nat.zero_add]
  rfl

/-- One more event starts one more attempt, or none. -/
theorem starts_concat (trace : List (Event κ α)) (event : Event κ α) :
    starts (trace ++ [event]) = starts trace ++ event.started?.toList := by
  rw [starts, List.filterMap_append]
  cases event <;> rfl

/-- One more event ends one more attempt, or none. -/
theorem endings_concat (trace : List (Event κ α)) (event : Event κ α) :
    endings (trace ++ [event]) = endings trace ++ event.ended?.toList := by
  rw [endings, List.filterMap_append]
  cases event <;> rfl

/-- The starts of a trace are those among its events, -/
theorem mem_starts {trace : List (Event κ α)} {caller : κ} {n : ℕ} :
    (caller, n) ∈ starts trace ↔ .start n caller ∈ trace := by
  rw [starts, List.mem_filterMap]
  constructor
  · rintro ⟨event, hevent, h⟩
    cases event with
    | start m c =>
      obtain ⟨rfl, rfl⟩ := Prod.mk.inj (Option.some.inj h)
      exact hevent
    | arrival c => cases h
    | ending m o => cases h
  · exact fun h => ⟨_, h, rfl⟩

/-- and so are the endings. -/
theorem mem_endings {trace : List (Event κ α)} {outcome : Except EngineError α} {n : ℕ} :
    (outcome, n) ∈ endings trace ↔ .ending n outcome ∈ trace := by
  rw [endings, List.mem_filterMap]
  constructor
  · rintro ⟨event, hevent, h⟩
    cases event with
    | ending m o =>
      obtain ⟨rfl, rfl⟩ := Prod.mk.inj (Option.some.inj h)
      exact hevent
    | arrival c => cases h
    | start m c => cases h
  · exact fun h => ⟨_, h, rfl⟩

/-! ## The failures among the answers -/

/-- The callers who were answered with an error, and their errors. -/
def failures (answers : List (κ × Except EngineError α)) : List (κ × EngineError) :=
  answers.filterMap fun
    | (caller, .error e) => some (caller, e)
    | (_, .ok _) => none

/-- The failures among more answers come behind those among the first. -/
theorem failures_append (answers answers' : List (κ × Except EngineError α)) :
    failures (answers ++ answers') = failures answers ++ failures answers' :=
  List.filterMap_append

/-- Answers with engines are no failures. -/
theorem failures_map_ok (callers : List κ) (engines : α) :
    failures (callers.map (·, (.ok engines : Except EngineError α))) = [] := by
  rw [failures, List.filterMap_map]
  exact List.filterMap_eq_nil_iff.mpr fun _ _ => rfl

/-- The failures are the answers that are errors. -/
theorem mem_failures {answers : List (κ × Except EngineError α)} {caller : κ} {e : EngineError} :
    (caller, e) ∈ failures answers ↔ (caller, .error e) ∈ answers := by
  rw [failures, List.mem_filterMap]
  constructor
  · rintro ⟨⟨c, outcome⟩, hanswer, h⟩
    cases outcome with
    | ok engines => cases h
    | error e' =>
      obtain ⟨rfl, rfl⟩ := Prod.mk.inj (Option.some.inj h)
      exact hanswer
  · exact fun h => ⟨_, h, rfl⟩

/-- Who was answered with an error was answered. -/
theorem mem_answers_of_mem_failures {answers : List (κ × Except EngineError α)} {caller : κ}
    (h : caller ∈ (failures answers).map Prod.fst) : caller ∈ answers.map Prod.fst := by
  obtain ⟨⟨c, e⟩, hfailure, rfl⟩ := List.mem_map.mp h
  exact List.mem_map.mpr ⟨_, mem_failures.mp hfailure, rfl⟩

/-! ## What the operations do -/

/-- The callers who have come: those who were answered and those who wait. -/
def callers (s : Startup κ α) : List κ := s.answers.map Prod.fst ++ s.waiting

section Operations

variable {s : Startup κ α}

/-- A caller who comes before the engines are ready queues up. -/
theorem arrive_of_none (caller : κ) (h : s.engines = none) :
    s.arrive caller = { s with waiting := s.waiting ++ [caller] } := by
  simp only [arrive, h]

/-- A caller who comes once they are ready is given them at once. -/
theorem arrive_of_some (caller : κ) {engines : α} (h : s.engines = some engines) :
    s.arrive caller = { s with answers := s.answers ++ [(caller, .ok engines)] } := by
  simp only [arrive, h]

/-- The only caller who comes with an arrival is the one who arrives. -/
theorem callers_arrive (s : Startup κ α) (caller : κ) :
    (s.arrive caller).callers.Perm (caller :: s.callers) := by
  cases h : s.engines with
  | none =>
    rw [arrive_of_none caller h, callers, callers, ← List.append_assoc]
    exact List.perm_append_singleton caller _
  | some engines =>
    rw [arrive_of_some caller h, callers, callers, List.map_append, List.append_assoc]
    exact List.perm_middle

/-- An arrival makes no attempt fail. -/
theorem failures_arrive (s : Startup κ α) (caller : κ) :
    failures (s.arrive caller).answers = failures s.answers := by
  cases h : s.engines with
  | none => rw [arrive_of_none caller h]
  | some engines =>
    rw [arrive_of_some caller h, failures_append]
    exact List.append_nil _

/-- A caller who comes starts no attempt, -/
theorem attempts_arrive (s : Startup κ α) (caller : κ) :
    (s.arrive caller).attempts = s.attempts := by
  cases h : s.engines with
  | none => rw [arrive_of_none caller h]
  | some engines => rw [arrive_of_some caller h]

/-- and makes no engines. -/
theorem engines_arrive (s : Startup κ α) (caller : κ) :
    (s.arrive caller).engines = s.engines := by
  cases h : s.engines with
  | none => rw [arrive_of_none caller h, h]
  | some engines => rw [arrive_of_some caller h, h]

/-- An attempt that fails leaves all as before but for the caller who ran it, who is told the error.
-/
theorem finish_error {caller : κ} {waiting : List κ} (h : s.waiting = caller :: waiting)
    (e : EngineError) :
    s.finish (.error e) =
      { s with running := false, waiting, answers := s.answers ++ [(caller, .error e)] } := by
  simp only [finish, h]

/-- An attempt that succeeds gives the engines to all who wait. -/
theorem finish_ok {caller : κ} {waiting : List κ} (h : s.waiting = caller :: waiting)
    (engines : α) :
    s.finish (.ok engines) =
      { s with
        running := false
        engines := some engines
        waiting := []
        answers := s.answers ++ s.waiting.map (·, .ok engines) } := by
  simp only [finish, h]

/-- The end of an attempt is no new attempt. -/
theorem attempts_finish (s : Startup κ α) (outcome : Except EngineError α) :
    (s.finish outcome).attempts = s.attempts := by
  unfold finish
  split <;> rfl

/-- A failing attempt is one failure more, and is charged to the caller at the head of the
queue. -/
theorem failures_finish_error {caller : κ} {waiting : List κ} (h : s.waiting = caller :: waiting)
    (e : EngineError) :
    failures (s.finish (.error e)).answers = failures s.answers ++ [(caller, e)] := by
  rw [finish_error h, failures_append]
  rfl

/-- An attempt that succeeds makes no failure, whoever waits. -/
theorem failures_finish_ok {caller : κ} {waiting : List κ} (h : s.waiting = caller :: waiting)
    (engines : α) : failures (s.finish (.ok engines)).answers = failures s.answers := by
  rw [finish_ok h, failures_append, failures_map_ok, List.append_nil]

/-- Nobody comes and nobody leaves when an attempt ends. -/
theorem callers_finish {caller : κ} {waiting : List κ} (h : s.waiting = caller :: waiting)
    (outcome : Except EngineError α) : (s.finish outcome).callers = s.callers := by
  cases outcome with
  | error e =>
    rw [finish_error h, callers, callers, h, List.map_append, List.append_assoc]
    rfl
  | ok engines =>
    rw [finish_ok h, callers, callers, List.map_append, List.map_map, List.append_nil]
    congr 1
    exact List.map_id _

end Operations

end Fettle.Startup
