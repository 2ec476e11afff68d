import TaskScheduler.Coordinator.Refinement

namespace Scheduler

-- The attempts of a run that an agent may still be working on.
def Store.activeAttempts (s : Store) (runId : Uuid) : Nat :=
  s.attemptsOf runId |>.countP (·.state.isActive)

namespace System

variable {σ : System} {act : Action} {run run' : Run}

-- The life of the run in the row `run`.
def lifeOf (σ : System) (run : Run) : Life :=
  run.life (σ.store.core.slots σ.delivery run.id) σ.log

theorem life_of_mem (h : run ∈ σ.store.runs) : σ.life run.id = some (σ.lifeOf run) :=
  Core.life_some <| Table.get?_of_mem h

theorem activeCount_lifeOf : (σ.lifeOf run).activeCount = σ.store.activeAttempts run.id := by
  simp only [Life.activeCount, lifeOf, Run.life, Core.slots, List.countP_map]
  rfl

theorem Reachable.lawful_of_mem (h : σ.Reachable) (hr : run ∈ σ.store.runs) :
    (σ.lifeOf run).Lawful :=
  h.lawful <| life_of_mem hr

theorem Reachable.slot (h : σ.Reachable) {a : Attempt} (ha : a ∈ σ.store.attempts) :
    ∃ run, σ.store.runs.get? a.runId = some run ∧ a.slot σ.delivery ∈ (σ.lifeOf run).slots := by
  have ⟨run, hr⟩ := Option.isSome_iff_exists.mp <| h.wellFormed.attempts a ha
  have hk : run.id = a.runId := Table.key_of_get? hr
  exact ⟨run, hr, by simpa [lifeOf, Run.life, hk] using Core.mem_slots (d := σ.delivery) ha⟩

-- The run of an active attempt is running, unless it was cancelled.
theorem Reachable.run_of_active (h : σ.Reachable) {a : Attempt} (ha : a ∈ σ.store.attempts)
    (hs : a.state.isActive) : ∃ run, σ.store.runs.get? a.runId = some run ∧
      (run.state = .running ∨ run.state = .cancelled) := by
  have ⟨run, hr, hm⟩ := h.slot ha
  exact ⟨run, hr, ((h.lawful_of_mem <| Table.mem_of_get? hr).sound.of_active hm hs).right⟩

theorem Reachable.released (h : σ.Reachable) {a : Attempt} (ha : a ∈ σ.store.attempts)
    (hs : a.state = .offerFailed) : σ.delivery a.id = .failed := by
  have ⟨run, hr, hm⟩ := h.slot ha
  exact (h.lawful_of_mem <| Table.mem_of_get? hr).sound.released _ hm hs

-- A result that is applied is one for a running run.
theorem Reachable.active_of_concludable (h : σ.Reachable) {a : Attempt} {run : Run} {expired : Bool}
    (ha : a ∈ σ.store.attempts) (hc : Store.Concludable expired a.state)
    (hd : expired = false → σ.delivery a.id = .sent) (hr : σ.store.runs.get? a.runId = some run)
    (hn : run.state ≠ .cancelled) : run.state.isActive := by
  have hs : a.state.isActive := by
    cases hs : a.state
    case offerFailed =>
      cases expired
      case true => simp [Store.Concludable, hs] at hc
      case false => cases (hd rfl).symm.trans (h.released ha hs)
    all_goals cases expired <;> simp_all [Store.Concludable, AttemptState.isActive]
  obtain ⟨run', hr', hx⟩ := h.run_of_active ha hs
  obtain rfl : run' = run := Option.some.inj (hr'.symm.trans hr)
  rw [hx.resolve_right hn]
  rfl

-- What an action does to a run that is already there.
theorem Reachable.exec_cases (h : σ.Reachable) (ha : σ.Enabled act) (hr : run ∈ σ.store.runs)
    (hr' : run' ∈ (σ.exec act).store.runs) (hi : run'.id = run.id) :
    (σ.exec act).lifeOf run' = σ.lifeOf run ∨ ∃ e, act.Emits run.id e ∧ (σ.lifeOf run).Enabled e ∧
      (σ.exec act).lifeOf run' = (σ.lifeOf run).exec e := by
  have he := life_exec (r := run.id) h.wellFormed ha
  have hl := life_of_mem hr'
  rw [hi] at hl
  rw [life_of_mem hr, hl] at he
  simpa using he.of_some

theorem Reachable.terminal_left (h : σ.Reachable) (ha : σ.Enabled act) (hr : run ∈ σ.store.runs)
    (hr' : run' ∈ (σ.exec act).store.runs) (hi : run'.id = run.id) (ht : run.state.isTerminal)
    (hn : run'.state ≠ run.state) : run.state = .failed ∧ ∃ now, act = .store (.retryRun run.id now) := by
  obtain he | ⟨e, hm, he, hx⟩ := h.exec_cases ha hr hr' hi
  case inl => exact absurd (congrArg Life.state he) hn
  case inr =>
    have hn : ((σ.lifeOf run).exec e).state ≠ (σ.lifeOf run).state := hx ▸ hn
    obtain ⟨rfl, hf⟩ := Life.terminal_left_by_retry (h.lawful_of_mem hr).sound he ht hn
    cases hm
    exact ⟨hf, _, rfl⟩

-- The attempts of a run that were accepted since it was last retried.
def acceptedAttempts (σ : System) (runId : Uuid) : List Attempt :=
  σ.store.attemptsOf runId |>.filter (·.id ∈ LogEntry.acceptedSinceRetry runId σ.log)

-- The attempts of a run whose results an agent reported since it was last retried.
def executedAttempts (σ : System) (runId : Uuid) : List Attempt :=
  σ.store.attemptsOf runId |>.filter (·.id ∈ LogEntry.executedSinceRetry runId σ.log)

theorem length_acceptedAttempts : (σ.acceptedAttempts run.id).length =
    (σ.lifeOf run).slots.countP (·.id ∈ (σ.lifeOf run).accepted) := by
  simp only [acceptedAttempts, lifeOf, Run.life, Core.slots, List.countP_map,
    ← List.countP_eq_length_filter]
  rfl

theorem countP_executedAttempts : (σ.executedAttempts run.id).countP (·.acceptedAt.isSome) =
    (σ.lifeOf run).slots.countP fun a => a.id ∈ (σ.lifeOf run).executed && a.accepted := by
  simp only [executedAttempts, lifeOf, Run.life, Core.slots, List.countP_map, List.countP_filter]
  refine List.countP_congr fun a _ => ?_
  rw [Bool.and_comm]
  rfl

-- A run that fails without having used up its budget was confirmed to have a poisoned input.
theorem Reachable.failed_cases (h : σ.Reachable) (ha : σ.Enabled act) (hr : run ∈ σ.store.runs)
    (hr' : run' ∈ (σ.exec act).store.runs) (hi : run'.id = run.id) (hb : 0 < run.maxAttempts)
    (hn : run.state ≠ .failed) (hf : run'.state = .failed) :
    run'.attemptCount = run'.maxAttempts ∨ ∃ evidence nodes id order now s',
      act = .store (.recordHealthEvidence evidence nodes id order now) ∧
      σ.store.recordHealthEvidence evidence nodes id order now = .ok (.confirmed, s') := by
  obtain he | ⟨e, hm, he, hx⟩ := h.exec_cases ha hr hr' hi
  case inl => exact absurd ((congrArg Life.state he).symm.trans hf) hn
  case inr =>
    have hs : ((σ.lifeOf run).exec e).state = .failed := hx ▸ hf
    obtain rfl | hc := Life.failed_of_budget ((h.lawful_of_mem hr).budget hb) hn hs
    case inr =>
      rw [← hx] at hc
      exact .inl hc
    case inl =>
      cases hm
      case poison evidence nodes id order now =>
        refine .inr ⟨evidence, nodes, id, order, now, ?_⟩
        have hc : ((σ.store.recordHealthEvidence evidence nodes id order now).persisted σ.store).core ≠
            σ.store.core := by
          intro hc
          have hm : run' ∈ σ.store.core.runs := hc ▸ hr'
          exact hn <| Table.key_injOn hm hr hi ▸ hf
        cases hs : σ.store.recordHealthEvidence evidence nodes id order now
        case error => simp [hs] at hc
        case ok r =>
          obtain ⟨st, s'⟩ := r
          have ⟨_, _, _, hp⟩ := Store.recordHealthEvidence_core hs
          simp only [hs, Transaction.persisted_ok] at hc
          by_cases hk : st = .confirmed
          case pos => exact ⟨s', rfl, hk ▸ rfl⟩
          case neg => exact absurd (hp.trans <| if_neg hk) hc

-- The state of a run and its active attempts always fit together, and a terminal state is only left
-- when a failed run is retried.
theorem active_attempts_fit_run_state (h : σ.Reachable) :
    (∀ run ∈ σ.store.runs, Life.Fits run.state (σ.store.activeAttempts run.id)) ∧
    ∀ act, σ.Enabled act → ∀ run ∈ σ.store.runs, ∀ run' ∈ (σ.exec act).store.runs,
      run'.id = run.id → run.state.isTerminal → run'.state ≠ run.state →
        run.state = .failed ∧ ∃ now, act = .store (.retryRun run.id now) := by
  constructor
  case left =>
    intro run hr
    rw [← activeCount_lifeOf]
    exact (h.lawful_of_mem hr).sound.active
  case right =>
    intro act ha run hr run' hr' hi ht hn
    exact h.terminal_left ha hr hr' hi ht hn

-- The retry budget: what the counter of a run counts, and when it ends the run.
theorem attempt_count_within_budget (h : σ.Reachable) (hr : run ∈ σ.store.runs)
    (hb : 1 ≤ run.maxAttempts) :
    run.attemptCount = (σ.acceptedAttempts run.id).length ∧
    run.attemptCount ≤ run.maxAttempts ∧
    (run.state = .queued → run.attemptCount < run.maxAttempts) ∧
    (σ.store.attemptsOf run.id).map (·.attemptNumber) =
      List.range' 1 (σ.store.attemptsOf run.id).length ∧
    ∀ act, σ.Enabled act → ∀ run' ∈ (σ.exec act).store.runs, run'.id = run.id →
      run.state ≠ .failed → run'.state = .failed →
        run'.attemptCount = run'.maxAttempts ∨ ∃ evidence nodes id order now s',
          act = .store (.recordHealthEvidence evidence nodes id order now) ∧
          σ.store.recordHealthEvidence evidence nodes id order now = .ok (.confirmed, s') := by
  have hl := h.lawful_of_mem hr
  have hw := hl.budget hb
  refine ⟨?_, hw.le, hw.queued, ?_, ?_⟩
  · rw [length_acceptedAttempts]
    exact (hl.counted.countP_eq hl.sound).symm
  · simpa [Life.Numbered, lifeOf, Run.life, Core.slots, Function.comp_def, Attempt.slot] using hl.numbered
  · exact fun act ha run' hr' hi hn hf => h.failed_cases ha hr hr' hi hb hn hf

-- Executions whose acceptance was recorded stay within the budget.
theorem accepted_executions_within_budget (h : σ.Reachable) (hr : run ∈ σ.store.runs)
    (hb : 1 ≤ run.maxAttempts) :
    (σ.executedAttempts run.id).countP (·.acceptedAt.isSome) ≤ run.maxAttempts := by
  have hl := h.lawful_of_mem hr
  rw [countP_executedAttempts]
  exact hl.executed.countP_le hl.sound hl.counted (hl.budget hb)

end System

namespace Sample

-- A schedule with one run that may be attempted twice.
def schedule : NewSchedule where
  id                := 1
  spec              := {
    name                := "report"
    parameterCollection := none
    cron                := none
    webhookEnabled      := false
    enabled             := true
  }
  encryptedSnapshot := none
  webhookPublicId   := none
  webhookSecretHash := none

def run : NewRun where
  id                    := 10
  scheduleId            := 1
  triggerKind           := .manual
  scheduledAt           := 0
  encryptedSnapshot     := some ⟨"blueprint", "parameters"⟩
  maxAttempts           := 2
  initialBackoffSeconds := 1
  backoffCapSeconds     := 1
  idempotencyKey        := none

def result (outcome : ExecutionOutcome) : ExecutionResult where
  outcome
  exitCode   := none
  signal     := none
  stdout     := ""
  stderr     := ""
  startedAt  := 0
  finishedAt := 0
  error      := none
  output     := {}
  diagnostic := none

def created : List Action := [.store (.createSchedule schedule 0), .store (.createRun run 2 0)]

-- The run is offered to an agent, which receives the assignment.
def offered : List Action :=
  created ++ [.store (.createAttempt 10 "agent" 30 20 "token" 0), .deliver 20 .sent]

-- The assignment is lost on its way.
def undelivered : List Action :=
  created ++ [.store (.createAttempt 10 "agent" 30 20 "token" 0), .deliver 20 .failed]

def accepted : List Action :=
  offered ++ [.store (.acceptAttempt 20 "token" 30 0)]

def succeeded : List Action :=
  accepted ++ [.store (.finishAttempt 20 "token" (result .succeeded) none 0 1000)]

-- Three times the agent executes the assignment, but its acceptance never arrives.
def unaccepted : List Action :=
  offered ++ [
    .store (.finishAttempt 20 "token" (result .failed) none 0 1000),
    .store (.createAttempt 10 "agent" 30 21 "token" 10000),
    .deliver 21 .sent,
    .store (.finishAttempt 21 "token" (result .failed) none 0 11000),
    .store (.createAttempt 10 "agent" 30 22 "token" 20000),
    .deliver 22 .sent,
    .store (.finishAttempt 22 "token" (result .failed) none 0 21000)
  ]

def after (actions : List Action) : System :=
  coordinator.run .initial actions

theorem reachable_after {actions : List Action} (h : coordinator.Valid .initial actions) :
    (after actions).Reachable :=
  ⟨actions, h, rfl⟩

end Sample

namespace System

open Sample

theorem active_attempts_fit_run_state_offered :
    (after offered).store.runs.rows.map (·.state) = [.running] ∧
    ∀ run ∈ (after offered).store.runs,
      Life.Fits run.state ((after offered).store.activeAttempts run.id) :=
  ⟨by decide, (active_attempts_fit_run_state <| reachable_after <| by decide).left⟩

theorem attempt_count_within_budget_accepted :
    { Sample.run.row 0 with state := .running, attemptCount := 1 } ∈ (after accepted).store.runs ∧
    1 = ((after accepted).acceptedAttempts 10).length := by
  have hr : { Sample.run.row 0 with state := .running, attemptCount := 1 } ∈
      (after accepted).store.runs := by decide
  exact ⟨hr, (attempt_count_within_budget (reachable_after <| by decide) hr (by decide)).left⟩

theorem accepted_executions_within_budget_succeeded :
    { Sample.run.row 0 with state := .succeeded, attemptCount := 1, notBefore := 2000 } ∈
      (after succeeded).store.runs ∧
    ((after succeeded).executedAttempts 10).countP (·.acceptedAt.isSome) ≤ 2 := by
  have hr : { Sample.run.row 0 with state := .succeeded, attemptCount := 1, notBefore := 2000 } ∈
      (after succeeded).store.runs := by decide
  exact ⟨hr, accepted_executions_within_budget (reachable_after <| by decide) hr (by decide)⟩

-- Executions of which the coordinator only learns through their results are not counted.
theorem unaccepted_executions_exceed_budget :
    ∃ σ : System, σ.Reachable ∧ ∃ run ∈ σ.store.runs,
      run.maxAttempts < (σ.executedAttempts run.id).length :=
  ⟨after unaccepted, reachable_after <| by decide, by decide⟩

end System

end Scheduler
