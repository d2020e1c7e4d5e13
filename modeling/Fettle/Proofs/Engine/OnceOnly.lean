import Fettle.Proofs.Engine.Interleaving

/-!
# The engines are started once

In every state that a run reaches, all attempts but the last have failed and have been charged to
the callers who started them; the last one has failed too, or is running, or has succeeded
(`Phase`). `Accounts` ties this to the trace, to the script and to the queue. It holds at the
beginning, and every step keeps it, so it holds throughout a run, and `onceOnly_of_run` reads the
guarantees of a start-up off it.
-/

namespace Fettle.Startup

variable {κ α : Type} {limit : Option Duration} {script : ℕ → Attempt α}
  {trace : List (Event κ α)} {s s' : Startup κ α} {event : Event κ α}

/-! ## What holds in every state -/

/-- Where a start-up stands: who has started an attempt that has not failed, and how this attempt
has ended. -/
inductive Phase (s : Startup κ α) : List κ → List (Except EngineError α) → Prop
  /-- There is no such attempt. -/
  | idle (hengines : s.engines = none) (hrunning : s.running = false) : Phase s [] []
  /-- The caller at the head of the queue is running it. -/
  | running {caller : κ} {waiting : List κ} (hengines : s.engines = none)
      (hrunning : s.running = true) (hwaiting : s.waiting = caller :: waiting) : Phase s [caller] []
  /-- It has succeeded, and nobody waits any more. -/
  | ready {caller : κ} {engines : α} (hengines : s.engines = some engines)
      (hrunning : s.running = false) (hwaiting : s.waiting = []) :
      Phase s [caller] [.ok engines]

/-- How the failed attempts have ended. -/
def failedOutcomes (s : Startup κ α) : List (Except EngineError α) :=
  (failures s.answers).map fun failure => .error failure.2

/-- Who has started the failed attempts. -/
def failedStarters (s : Startup κ α) : List κ := (failures s.answers).map Prod.fst

/-- Who was answered with engines has the engines of the start-up. -/
def Served (s : Startup κ α) : Prop :=
  ∀ caller engines, (caller, .ok engines) ∈ s.answers → s.engines = some engines

/-- The state of a start-up accounts for everything in the trace. -/
structure Accounts (limit : Option Duration) (script : ℕ → Attempt α) (trace : List (Event κ α))
    (s : Startup κ α) : Prop where
  /-- The attempts are those that have failed and the one of the phase, numbered from 0. -/
  attempts : ∃ starters outcomes, Phase s starters outcomes ∧
    starts trace = (s.failedStarters ++ starters).zipIdx ∧
    endings trace = (s.failedOutcomes ++ outcomes).zipIdx ∧
    s.attempts = (failures s.answers).length + starters.length
  /-- Nobody starts two attempts. -/
  starters : ((starts trace).map Prod.fst).Nodup
  /-- Attempts end as the script says. -/
  script : ∀ outcome n, (outcome, n) ∈ endings trace → outcome = (script n).within limit
  /-- Answers with engines are answers with the engines of the start-up. -/
  served : s.Served
  /-- Those who have arrived have been answered or wait, -/
  arrivals : ∀ caller, .arrival caller ∈ trace ↔ caller ∈ s.callers
  /-- and nobody is twice among them. -/
  callers : s.callers.Nodup

/-- A fresh start-up accounts for the empty trace. -/
theorem accounts_nil : Accounts limit script ([] : List (Event κ α)) {} where
  attempts := ⟨[], [], .idle rfl rfl, rfl, rfl, rfl⟩
  starters := List.nodup_nil
  script _ _ h := absurd h List.not_mem_nil
  served _ _ h := absurd h List.not_mem_nil
  arrivals _ := iff_of_false List.not_mem_nil List.not_mem_nil
  callers := List.nodup_nil

/-! ## Phases and answers -/

namespace Phase

variable {starters : List κ} {outcomes : List (Except EngineError α)}

/-- While an attempt is running, the caller at the head of the queue runs it. -/
theorem of_running (h : Phase s starters outcomes) (hrunning : s.running = true) :
    ∃ caller waiting, starters = [caller] ∧ outcomes = [] ∧ s.engines = none ∧
      s.waiting = caller :: waiting := by
  cases h with
  | idle _ hidle => rw [hrunning] at hidle; cases hidle
  | running hengines _ hwaiting => exact ⟨_, _, rfl, rfl, hengines, hwaiting⟩
  | ready _ hidle => rw [hrunning] at hidle; cases hidle

/-- Once the start-up is ready, an attempt has succeeded, and nobody waits. -/
theorem of_isReady (h : Phase s starters outcomes) (hready : s.isReady = true) :
    ∃ caller engines, starters = [caller] ∧ outcomes = [.ok engines] ∧
      s.engines = some engines ∧ s.waiting = [] := by
  rw [isReady] at hready
  cases h with
  | idle hengines => rw [hengines] at hready; cases hready
  | running hengines => rw [hengines] at hready; cases hready
  | ready hengines _ hwaiting => exact ⟨_, _, rfl, rfl, hengines, hwaiting⟩

/-- An arrival does not change the phase. -/
theorem arrive (h : Phase s starters outcomes) (caller : κ) :
    Phase (s.arrive caller) starters outcomes := by
  cases h with
  | idle hengines hrunning =>
    rw [arrive_of_none caller hengines]
    exact .idle hengines hrunning
  | running hengines hrunning hwaiting =>
    rw [arrive_of_none caller hengines]
    exact .running hengines hrunning (congrArg (· ++ [caller]) hwaiting)
  | ready hengines hrunning hwaiting =>
    rw [arrive_of_some caller hengines]
    exact .ready hengines hrunning hwaiting

end Phase

/-- When the running attempt ends, it joins the failed ones or is the one that has succeeded. -/
theorem exists_phase_finish {caller : κ} {waiting : List κ} (hengines : s.engines = none)
    (hwaiting : s.waiting = caller :: waiting) (outcome : Except EngineError α) :
    ∃ starters outcomes, Phase (s.finish outcome) starters outcomes ∧
      s.failedStarters ++ [caller] = (s.finish outcome).failedStarters ++ starters ∧
      s.failedOutcomes ++ [outcome] = (s.finish outcome).failedOutcomes ++ outcomes ∧
      (failures s.answers).length + 1 =
        (failures (s.finish outcome).answers).length + starters.length := by
  -- A failure is written down with its answer, so nothing is left over of it; a success stays as
  -- the one attempt that no failure accounts for.
  cases outcome with
  | error e =>
    have hfailures := failures_finish_error hwaiting e
    refine ⟨[], [], ?_, ?_, ?_, ?_⟩
    · rw [finish_error hwaiting]
      exact .idle hengines rfl
    · rw [failedStarters, failedStarters, hfailures, List.map_append, List.append_nil]
      rfl
    · rw [failedOutcomes, failedOutcomes, hfailures, List.map_append, List.append_nil]
      rfl
    · rw [hfailures, List.length_append]
      rfl
  | ok engines =>
    have hfailures := failures_finish_ok hwaiting engines
    refine ⟨[caller], [.ok engines], ?_, ?_, ?_, ?_⟩
    · rw [finish_ok hwaiting]
      exact .ready rfl rfl rfl
    · rw [failedStarters, failedStarters, hfailures]
    · rw [failedOutcomes, failedOutcomes, hfailures]
    · rw [hfailures]
      rfl

/-- Who is answered upon arrival gets the engines of the start-up. -/
theorem Served.arrive (h : s.Served) (caller : κ) : (s.arrive caller).Served := by
  intro c engines hc
  rw [engines_arrive]
  cases hengines : s.engines with
  | none =>
    rw [arrive_of_none caller hengines] at hc
    rw [← hengines]
    exact h c engines hc
  | some engines' =>
    rw [arrive_of_some caller hengines, List.mem_append, List.mem_singleton] at hc
    rcases hc with hc | hc
    · rw [← hengines]
      exact h c engines hc
    · obtain ⟨-, hengines'⟩ := Prod.mk.inj hc
      rw [Except.ok.inj hengines']

/-- Before an attempt has succeeded nobody has been answered with engines, and when it succeeds all
who wait get its engines. -/
theorem Served.finish {caller : κ} {waiting : List κ} (h : s.Served) (hengines : s.engines = none)
    (hwaiting : s.waiting = caller :: waiting) (outcome : Except EngineError α) :
    (s.finish outcome).Served := by
  intro c engines hc
  have hnone : (c, .ok engines) ∉ s.answers := by
    intro hanswer
    have hsome := h c engines hanswer
    rw [hengines] at hsome
    cases hsome
  cases outcome with
  | error e =>
    rw [finish_error hwaiting, List.mem_append, or_iff_right hnone, List.mem_singleton] at hc
    cases hc
  | ok engines' =>
    rw [finish_ok hwaiting, List.mem_append, or_iff_right hnone] at hc
    rw [finish_ok hwaiting]
    obtain ⟨_, -, hc⟩ := List.mem_map.mp hc
    obtain ⟨-, hengines'⟩ := Prod.mk.inj hc
    rw [Except.ok.inj hengines']

/-! ## What a step keeps -/

namespace Accounts

/-- An arrival is answered at once or joins the queue. -/
theorem of_arrival {caller : κ} (h : Accounts limit script trace s) (hnew : caller ∉ s.callers) :
    Accounts limit script (trace ++ [.arrival caller]) (s.arrive caller) := by
  have hstarts : starts (trace ++ [.arrival caller]) = starts trace :=
    (starts_concat trace _).trans (List.append_nil _)
  have hendings : endings (trace ++ [.arrival caller]) = endings trace :=
    (endings_concat trace _).trans (List.append_nil _)
  have hperm := callers_arrive s caller
  refine ⟨?_, ?_, ?_, h.served.arrive caller, ?_, ?_⟩
  · obtain ⟨starters, outcomes, hphase, hs, he, hattempts⟩ := h.attempts
    rw [hstarts, hendings, failedStarters, failedOutcomes, failures_arrive, attempts_arrive]
    exact ⟨starters, outcomes, hphase.arrive caller, hs, he, hattempts⟩
  · rw [hstarts]
    exact h.starters
  · rw [hendings]
    exact h.script
  · intro c
    rw [hperm.mem_iff, List.mem_cons, List.mem_append, List.mem_singleton, h.arrivals,
      Event.arrival.injEq, or_comm]
  · rw [hperm.nodup_iff, List.nodup_cons]
    exact ⟨hnew, h.callers⟩

/-- A caller who waits has started no attempt that has failed. -/
theorem not_mem_failedStarters {caller : κ} (h : Accounts limit script trace s)
    (hwaiting : caller ∈ s.waiting) : caller ∉ s.failedStarters := by
  intro hfailed
  have hcallers := h.callers
  rw [Startup.callers, List.nodup_append] at hcallers
  exact hcallers.2.2 caller (mem_answers_of_mem_failures hfailed) caller hwaiting rfl

/-- The caller at the head of the queue starts an attempt of its own. -/
theorem of_start {caller : κ} {waiting : List κ} (h : Accounts limit script trace s)
    (hrunning : s.running = false) (hwaiting : s.waiting = caller :: waiting) :
    Accounts limit script (trace ++ [.start s.attempts caller]) s.begin := by
  have hstarts := starts_concat trace (.start s.attempts caller)
  have hendings : endings (trace ++ [.start s.attempts caller]) = endings trace :=
    (endings_concat trace _).trans (List.append_nil _)
  have hnew : caller ∉ s.failedStarters :=
    h.not_mem_failedStarters (by rw [hwaiting]; exact List.mem_cons_self)
  obtain ⟨starters, outcomes, hphase, hs, he, hattempts⟩ := h.attempts
  -- Somebody waits and nothing is running, so all attempts so far have failed.
  cases hphase with
  | running _ hrunning' => rw [hrunning] at hrunning'; cases hrunning'
  | ready _ _ hwaiting' => rw [hwaiting] at hwaiting'; cases hwaiting'
  | idle hengines =>
    rw [List.append_nil] at hs
    have hstarts' : starts (trace ++ [.start s.attempts caller]) =
        (s.failedStarters ++ [caller]).zipIdx := by
      rw [hstarts, hs, hattempts, zipIdx_concat, failedStarters, List.length_map]
      rfl
    refine ⟨⟨[caller], [], .running hengines rfl hwaiting, hstarts', ?_, ?_⟩, ?_, ?_, h.served, ?_,
      h.callers⟩
    · rw [hendings, he]
      rfl
    · show s.attempts + 1 = _
      rw [hattempts]
      rfl
    · have hold := h.starters
      rw [hs, List.zipIdx_map_fst] at hold
      rw [hstarts', List.zipIdx_map_fst, ← List.concat_eq_append]
      exact hold.concat hnew
    · rw [hendings]
      exact h.script
    · intro c
      rw [List.mem_append, h.arrivals, List.mem_singleton]
      exact or_iff_left nofun

/-- The running attempt fails, which only its caller is told, or succeeds for all who wait. -/
theorem of_ending {n : ℕ} {outcome : Except EngineError α} (h : Accounts limit script trace s)
    (hrunning : s.running = true) (hn : s.attempts = n + 1)
    (houtcome : outcome = (script n).within limit) :
    Accounts limit script (trace ++ [.ending n outcome]) (s.finish outcome) := by
  have hstarts : starts (trace ++ [.ending n outcome]) = starts trace :=
    (starts_concat trace _).trans (List.append_nil _)
  have hendings : endings (trace ++ [.ending n outcome]) = endings trace ++ [(outcome, n)] :=
    endings_concat trace _
  obtain ⟨_, _, hphase, hs, he, hattempts⟩ := h.attempts
  obtain ⟨caller, waiting, rfl, rfl, hengines, hwaiting⟩ := hphase.of_running hrunning
  -- All attempts before the running one have ended, so it is the next to end.
  have hnumber : n = s.failedOutcomes.length := by
    rw [failedOutcomes, List.length_map]
    rw [List.length_singleton] at hattempts
    omega
  refine ⟨?_, ?_, ?_, h.served.finish hengines hwaiting outcome, ?_, ?_⟩
  · obtain ⟨starters, outcomes, hphase', hstarters, houtcomes, hlength⟩ :=
      exists_phase_finish hengines hwaiting outcome
    refine ⟨starters, outcomes, hphase', ?_, ?_, ?_⟩
    · rw [hstarts, hs, hstarters]
    · rw [hendings, he, List.append_nil, hnumber, ← zipIdx_concat, houtcomes]
    · rw [attempts_finish, hattempts]
      exact hlength
  · rw [hstarts]
    exact h.starters
  · intro outcome' m hm
    rw [hendings, List.mem_append, List.mem_singleton] at hm
    rcases hm with hm | hm
    · exact h.script outcome' m hm
    · obtain ⟨rfl, rfl⟩ := Prod.mk.inj hm
      exact houtcome
  · intro c
    rw [List.mem_append, h.arrivals, List.mem_singleton, callers_finish hwaiting]
    exact or_iff_left nofun
  · rw [callers_finish hwaiting]
    exact h.callers

end Accounts

/-- Every step keeps the accounts. -/
theorem Accounts.step (h : Accounts limit script trace s) (hstep : Step limit script s event s') :
    Accounts limit script (trace ++ [event]) s' := by
  cases hstep with
  | arrive caller hanswered hwaiting =>
    exact h.of_arrival fun hmem => (List.mem_append.mp hmem).elim hanswered hwaiting
  | begin hrunning hwaiting => exact h.of_start hrunning hwaiting
  | finish hrunning hn => exact h.of_ending hrunning hn rfl

/-- The accounts are kept throughout a run. -/
theorem Run.accounts (h : Run limit script trace s) : Accounts limit script trace s := by
  induction h with
  | nil => exact accounts_nil
  | snoc _ hstep ih => exact ih.step hstep

/-! ## What the accounts say -/

namespace Accounts

/-- An attempt is in flight if it is the last one and is running. -/
theorem inFlight_iff (h : Accounts limit script trace s) {n : ℕ} :
    InFlight trace n ↔ s.running = true ∧ s.attempts = n + 1 := by
  obtain ⟨starters, outcomes, hphase, hs, he, hattempts⟩ := h.attempts
  have hstarted : (∃ caller, .start n caller ∈ trace) ↔ n < s.attempts := by
    have hlength : (s.failedStarters ++ starters).length = s.attempts := by
      rw [List.length_append, failedStarters, List.length_map, hattempts]
    simp only [← mem_starts, hs, List.mk_mem_zipIdx_iff_getElem?, ← hlength]
    exact ⟨fun ⟨_, hn⟩ => (List.getElem?_eq_some_iff.mp hn).1,
      fun hn => ⟨_, List.getElem?_eq_getElem hn⟩⟩
  have hended : (∀ outcome, .ending n outcome ∉ trace) ↔
      (failures s.answers).length + outcomes.length ≤ n := by
    have hlength : (s.failedOutcomes ++ outcomes).length =
        (failures s.answers).length + outcomes.length := by
      rw [List.length_append, failedOutcomes, List.length_map]
    rw [← hlength, ← List.getElem?_eq_none_iff, Option.eq_none_iff_forall_ne_some]
    simp only [← mem_endings, he, List.mk_mem_zipIdx_iff_getElem?, ne_eq]
  -- The attempts from the number of the ended ones up to that of the started ones are in flight.
  rw [InFlight, hstarted, hended]
  cases hphase with
  | idle _ hrunning =>
    simp only [List.length_nil, hrunning, Bool.false_eq_true, false_and, iff_false] at hattempts ⊢
    omega
  | running _ hrunning =>
    simp only [List.length_nil, List.length_singleton, hrunning, true_and] at hattempts ⊢
    omega
  | ready _ hrunning =>
    simp only [List.length_singleton, hrunning, Bool.false_eq_true, false_and, iff_false]
      at hattempts ⊢
    omega

/-- An attempt has succeeded if it is the last one and the start-up has its engines. -/
theorem ending_ok_iff (h : Accounts limit script trace s) {n : ℕ} {engines : α} :
    .ending n (.ok engines) ∈ trace ↔ s.engines = some engines ∧ s.attempts = n + 1 := by
  obtain ⟨starters, outcomes, hphase, -, he, hattempts⟩ := h.attempts
  have hfailed : (.ok engines, n) ∉ s.failedOutcomes.zipIdx := by
    intro hmem
    obtain ⟨_, -, hok⟩ := List.mem_map.mp (List.fst_mem_of_mem_zipIdx hmem)
    cases hok
  rw [← mem_endings, he]
  cases hphase with
  | idle hengines =>
    rw [List.append_nil, hengines]
    exact iff_of_false hfailed nofun
  | running hengines =>
    rw [List.append_nil, hengines]
    exact iff_of_false hfailed nofun
  | ready hengines =>
    rw [zipIdx_concat, List.mem_append, or_iff_right hfailed, List.mem_singleton, Prod.mk.injEq,
      Except.ok.injEq, hengines, Option.some.injEq, hattempts, failedOutcomes, List.length_map,
      List.length_singleton]
    exact and_congr eq_comm (by omega)

/-- Attempts and the callers who start them determine each other. -/
theorem start_unique (h : Accounts limit script trace s) {n m : ℕ} {caller caller' : κ}
    (hn : .start n caller ∈ trace) (hm : .start m caller' ∈ trace) :
    m = n ↔ caller' = caller := by
  obtain ⟨starters, outcomes, -, hs, -, -⟩ := h.attempts
  have hnodup := h.starters
  rw [hs, List.zipIdx_map_fst] at hnodup
  rw [← mem_starts, hs, List.mk_mem_zipIdx_iff_getElem?] at hn hm
  constructor
  · rintro rfl
    exact Option.some.inj (hm.symm.trans hn)
  · rintro rfl
    have hlt := (List.getElem?_eq_some_iff.mp hm).1
    exact (List.getElem?_inj hlt hnodup).mp (hm.trans hn.symm)

/-- A caller was answered with an error only if it has started an attempt that has ended with that
error. -/
theorem failed_attempt (h : Accounts limit script trace s) {caller : κ} {e : EngineError}
    (hanswer : (caller, .error e) ∈ s.answers) :
    ∃ n, .start n caller ∈ trace ∧ .ending n (.error e) ∈ trace := by
  obtain ⟨starters, outcomes, -, hs, he, -⟩ := h.attempts
  obtain ⟨n, hn⟩ := List.mem_iff_getElem?.mp (mem_failures.mpr hanswer)
  have hlt := (List.getElem?_eq_some_iff.mp hn).1
  refine ⟨n, ?_, ?_⟩
  · rw [← mem_starts, hs, List.mk_mem_zipIdx_iff_getElem?, List.getElem?_append_left,
      failedStarters, List.getElem?_map, hn]
    · rfl
    · rwa [failedStarters, List.length_map]
  · rw [← mem_endings, he, List.mk_mem_zipIdx_iff_getElem?, List.getElem?_append_left,
      failedOutcomes, List.getElem?_map, hn]
    · rfl
    · rwa [failedOutcomes, List.length_map]

/-- An attempt is in flight if the start-up says that one is running. -/
theorem running_iff (h : Accounts limit script trace s) :
    s.running = true ↔ ∃ n, InFlight trace n := by
  simp only [h.inFlight_iff]
  constructor
  · intro hrunning
    obtain ⟨_, _, hphase, -, -, hattempts⟩ := h.attempts
    obtain ⟨caller, waiting, rfl, -⟩ := hphase.of_running hrunning
    exact ⟨(failures s.answers).length, hrunning, hattempts⟩
  · exact fun ⟨_, hrunning, _⟩ => hrunning

/-- The start-up counts the attempts that have been started. -/
theorem attempts_eq (h : Accounts limit script trace s) : s.attempts = (starts trace).length := by
  obtain ⟨starters, outcomes, -, hs, -, hattempts⟩ := h.attempts
  rw [hs, List.length_zipIdx, List.length_append, failedStarters, List.length_map, hattempts]

/-- As many attempts have been started as have failed, with one more while one is running, and one
more once one has succeeded. -/
theorem length_starts (h : Accounts limit script trace s) :
    (starts trace).length = (failures s.answers).length + (if s.running then 1 else 0) +
      (if s.isReady then 1 else 0) := by
  obtain ⟨starters, outcomes, hphase, hs, -, -⟩ := h.attempts
  rw [hs, List.length_zipIdx, List.length_append, failedStarters, List.length_map, isReady]
  cases hphase with
  | idle hengines hrunning => rw [hengines, hrunning]; rfl
  | running hengines hrunning => rw [hengines, hrunning]; rfl
  | ready hengines hrunning => rw [hengines, hrunning]; rfl

/-- The start-up is ready if an attempt has succeeded. -/
theorem isReady_iff (h : Accounts limit script trace s) :
    s.isReady = true ↔ ∃ n engines, .ending n (.ok engines) ∈ trace := by
  simp only [h.ending_ok_iff]
  constructor
  · intro hready
    obtain ⟨_, _, hphase, -, -, hattempts⟩ := h.attempts
    obtain ⟨caller, engines, rfl, -, hengines, -⟩ := hphase.of_isReady hready
    exact ⟨(failures s.answers).length, engines, hengines, hattempts⟩
  · rintro ⟨_, engines, hengines, -⟩
    rw [isReady, hengines]
    rfl

/-- Nobody waits once the start-up is ready. -/
theorem waiting_of_isReady (h : Accounts limit script trace s) (hready : s.isReady = true) :
    s.waiting = [] := by
  obtain ⟨_, _, hphase, -⟩ := h.attempts
  obtain ⟨_, _, -, -, -, hwaiting⟩ := hphase.of_isReady hready
  exact hwaiting

/-- While somebody waits, an attempt can be started or can end. -/
theorem exists_step (h : Accounts limit script trace s) (hwaiting : s.waiting ≠ []) :
    ∃ event s', Step limit script s event s' ∧ ∀ caller, event ≠ .arrival caller := by
  obtain ⟨starters, outcomes, hphase, -, -, hattempts⟩ := h.attempts
  cases hphase with
  | idle hengines hrunning =>
    obtain ⟨caller, waiting, hcons⟩ := List.exists_cons_of_ne_nil hwaiting
    exact ⟨_, _, .begin hrunning hcons, nofun⟩
  | running hengines hrunning => exact ⟨_, _, .finish hrunning hattempts, nofun⟩
  | ready _ _ hnil => exact absurd hnil hwaiting

/-- A failure leaves the start-up without engines. -/
theorem engines_of_failure (h : Accounts limit script trace s)
    (hstep : Step limit script s event s') {n : ℕ} {e : EngineError}
    (hevent : event = .ending n (.error e)) : s'.engines = none := by
  cases hstep with
  | arrive => cases hevent
  | begin => cases hevent
  | finish hrunning =>
    obtain ⟨_, _, hphase, -⟩ := h.attempts
    obtain ⟨caller, waiting, -, -, hengines, hwaiting⟩ := hphase.of_running hrunning
    rw [(Event.ending.inj hevent).2, finish_error hwaiting]
    exact hengines

end Accounts

/-- No attempt is started after one has succeeded. -/
theorem Run.not_start_of_ending_ok (h : Run limit script trace s)
    {before after : List (Event κ α)} {n m : ℕ} {engines : α} {caller : κ}
    (htrace : trace = before ++ .ending n (.ok engines) :: after) : .start m caller ∉ after := by
  -- The induction takes the last step of the run away, which is the last of `after`.
  induction h generalizing after with
  | nil => cases before <;> cases htrace
  | @snoc trace s s' event hrun hstep ih =>
    rcases List.eq_nil_or_concat after with rfl | ⟨after', event', rfl⟩
    · exact List.not_mem_nil
    · rw [List.concat_eq_append, ← List.cons_append, ← List.append_assoc] at htrace
      obtain ⟨htrace', hevent⟩ := List.append_inj' htrace rfl
      obtain rfl := (List.cons.inj hevent).1
      -- The run was ready before the last step, so nobody waited to start an attempt.
      have hready : s.isReady = true :=
        hrun.accounts.isReady_iff.mpr ⟨n, engines, by rw [htrace']; simp⟩
      rw [List.concat_eq_append, List.mem_append, List.mem_singleton, not_or]
      refine ⟨ih htrace', ?_⟩
      rintro rfl
      cases hstep with
      | begin _ hwaiting =>
        rw [hrun.accounts.waiting_of_isReady hready] at hwaiting
        cases hwaiting

/-! ## The guarantees -/

/-- What callers may rely on in a state with a trace. -/
structure OnceOnly (limit : Option Duration) (script : ℕ → Attempt α) (trace : List (Event κ α))
    (s : Startup κ α) : Prop where
  /-- At most one attempt is in flight. -/
  inFlight_unique : ∀ n m, InFlight trace n → InFlight trace m → n = m
  /-- At most one attempt succeeds, -/
  success_unique : ∀ n m engines engines', .ending n (.ok engines) ∈ trace →
    .ending m (.ok engines') ∈ trace → n = m
  /-- and none is started after it. -/
  not_start_after : ∀ before after n engines, trace = before ++ .ending n (.ok engines) :: after →
    ∀ m caller, .start m caller ∉ after
  /-- An attempt ends as the script and the bound on its time say. -/
  outcome_eq : ∀ n outcome, .ending n outcome ∈ trace → outcome = (script n).within limit
  /-- The start-up is ready exactly if an attempt has succeeded, -/
  isReady_iff : s.isReady = true ↔ ∃ n engines, .ending n (.ok engines) ∈ trace
  /-- and stays ready. -/
  isReady_step : ∀ event s', Step limit script s event s' → s.isReady = true → s'.isReady = true
  /-- A failure, be it a timeout or not, leaves it without engines. -/
  engines_of_failure : ∀ n e s', Step limit script s (.ending n (.error e)) s' → s'.engines = none
  /-- Who was answered with engines was answered after an attempt had succeeded with them. -/
  ok_answer : ∀ caller engines, (caller, .ok engines) ∈ s.answers →
    ∃ n, .ending n (.ok engines) ∈ trace
  /-- Who was answered with an error has started one attempt, and nobody else has started this
  attempt, which has ended with that error. -/
  error_answer : ∀ caller e, (caller, .error e) ∈ s.answers →
    ∃ n, .start n caller ∈ trace ∧ .ending n (.error e) ∈ trace ∧
      ∀ m caller', .start m caller' ∈ trace → (m = n ↔ caller' = caller)
  /-- As many attempts have been started as callers were answered with an error, and one more while
  one is in flight, and one more once one has succeeded. -/
  starts_eq : (starts trace).length = (failures s.answers).length +
    (if s.running then 1 else 0) + (if s.isReady then 1 else 0)
  /-- The start-up counts the attempts, and knows whether one is in flight. -/
  running_iff : s.attempts = (starts trace).length ∧ (s.running = true ↔ ∃ n, InFlight trace n)
  /-- Those who have arrived have been answered or wait, nobody twice or both, -/
  callers : (∀ caller, .arrival caller ∈ trace ↔ caller ∈ s.callers) ∧ s.callers.Nodup
  /-- and while somebody waits the start-up is not ready and can go on by itself. -/
  waiting : s.waiting ≠ [] → s.isReady = false ∧
    ∃ event s', Step limit script s event s' ∧ ∀ caller, event ≠ .arrival caller

/-- In every state that a run reaches, whatever the script and the interleaving, the engines have
been started at most once, and every answer is accounted for. -/
theorem onceOnly_of_run (hrun : Run limit script trace s) : OnceOnly limit script trace s := by
  -- All that is said of the run is read off the accounts of the state that it reaches.
  have h := hrun.accounts
  refine
    { inFlight_unique := ?_, success_unique := ?_, not_start_after := ?_, outcome_eq := ?_,
      isReady_iff := h.isReady_iff, isReady_step := ?_, engines_of_failure := ?_, ok_answer := ?_,
      error_answer := ?_, starts_eq := h.length_starts,
      running_iff := ⟨h.attempts_eq, h.running_iff⟩,
      callers := ⟨h.arrivals, h.callers⟩, waiting := ?_ }
  · intro n m hn hm
    have hlast := (h.inFlight_iff.mp hn).2.symm.trans (h.inFlight_iff.mp hm).2
    exact Nat.succ.inj hlast
  · intro n m engines engines' hn hm
    have hlast := (h.ending_ok_iff.mp hn).2.symm.trans (h.ending_ok_iff.mp hm).2
    exact Nat.succ.inj hlast
  · intro before after n engines htrace m caller
    exact hrun.not_start_of_ending_ok htrace
  · exact fun n outcome hmem => h.script outcome n (mem_endings.mpr hmem)
  · intro event s' hstep hready
    obtain ⟨n, engines, hmem⟩ := h.isReady_iff.mp hready
    exact (h.step hstep).isReady_iff.mpr ⟨n, engines, List.mem_append_left _ hmem⟩
  · exact fun n e s' hstep => h.engines_of_failure hstep rfl
  · intro caller engines hanswer
    have hengines := h.served caller engines hanswer
    have hready : s.isReady = true := by rw [isReady, hengines]; rfl
    obtain ⟨n, engines', hmem⟩ := h.isReady_iff.mp hready
    have heq := hengines.symm.trans (h.ending_ok_iff.mp hmem).1
    exact ⟨n, by rwa [Option.some.inj heq]⟩
  · intro caller e hanswer
    obtain ⟨n, hstart, hending⟩ := h.failed_attempt hanswer
    exact ⟨n, hstart, hending, fun m caller' hm => h.start_unique hstart hm⟩
  · intro hwaiting
    refine ⟨?_, h.exists_step hwaiting⟩
    rw [Bool.eq_false_iff]
    exact fun hready => hwaiting (h.waiting_of_isReady hready)

/-- A script whose first attempt fails, whose second one takes long, and whose later ones succeed
at once. -/
def flaky : ℕ → Attempt String
  | 0 => ⟨.error (.startup "no tools"), ⟨1⟩⟩
  | 1 => ⟨.ok "engines", ⟨9⟩⟩
  | _ => ⟨.ok "engines", ⟨1⟩⟩

/-- Callers keep arriving while the first attempt fails, the second one is stopped at the bound and
the third one succeeds. -/
theorem onceOnly_of_run_flaky :
    let trace : List (Event Char String) :=
      [.arrival 'a', .arrival 'b', .start 0 'a', .arrival 'c',
        .ending 0 (.error (.startup "no tools")), .start 1 'b',
        .ending 1 (.error (.startupTimeout ⟨5⟩)), .start 2 'c', .arrival 'd',
        .ending 2 (.ok "engines"), .arrival 'e']
    ∃ s : Startup Char String, Run (some ⟨5⟩) flaky trace s ∧
      s.answers = [('a', .error (.startup "no tools")), ('b', .error (.startupTimeout ⟨5⟩)),
        ('c', .ok "engines"), ('d', .ok "engines"), ('e', .ok "engines")] ∧
      OnceOnly (some ⟨5⟩) flaky trace s := by
  have h₀ : Run (some ⟨5⟩) flaky ([] : List (Event Char String)) {} := .nil
  have h₁ := h₀.snoc (.arrive 'a' (by decide) (by decide))
  have h₂ := h₁.snoc (.arrive 'b' (by decide) (by decide))
  have h₃ := h₂.snoc (.begin rfl rfl)
  have h₄ := h₃.snoc (.arrive 'c' (by decide) (by decide))
  have h₅ := h₄.snoc (.finish rfl rfl)
  have h₆ := h₅.snoc (.begin rfl rfl)
  have h₇ := h₆.snoc (.finish rfl rfl)
  have h₈ := h₇.snoc (.begin rfl rfl)
  have h₉ := h₈.snoc (.arrive 'd' (by decide) (by decide))
  have h₁₀ := h₉.snoc (.finish rfl rfl)
  have h₁₁ := h₁₀.snoc (.arrive 'e' (by decide) (by decide))
  exact ⟨_, h₁₁, rfl, onceOnly_of_run h₁₁⟩

end Fettle.Startup
