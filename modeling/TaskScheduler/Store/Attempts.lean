import TaskScheduler.Store.Batches

namespace Scheduler

-- The states that `accept_attempt` and `claim_expired_attempts` select.
def AttemptState.isLeased : AttemptState → Bool
  | offered | accepted => true
  | _                  => false

namespace Attempt

def accept (a : Attempt) (leaseSeconds : Nat) (now : Time) : Attempt :=
  { a with
    state          := .accepted
    acceptedAt     := a.acceptedAt <|> some now
    leaseExpiresAt := now + .seconds leaseSeconds
  }

def reject (a : Attempt) (result : ExecutionResult) (encrypted : Sealed ExecutionResult)
    (now : Time) : Attempt :=
  { a with
    state           := .finished
    outcome         := some result.outcome
    encryptedResult := some encrypted
    diagnostic      := result.diagnostic
    output          := some result.output
    durationMs      := some 0
    startedAt       := some now
    finishedAt      := some now
  }

-- The result columns that `finish_attempt_inner` writes together with the final state.
def recordResult (a : Attempt) (state : AttemptState) (result : ExecutionResult)
    (encrypted : Sealed ExecutionResult) : Attempt :=
  { a with
    state
    outcome         := some result.outcome
    encryptedResult := some encrypted
    diagnostic      := result.diagnostic
    output          := some result.output
    exitCode        := result.exitCode
    signal          := result.signal
    durationMs      := some result.durationMs
    startedAt       := some result.startedAt
    finishedAt      := some result.finishedAt
  }

end Attempt

namespace Run

def stateAfter (run : Run) (outcome : ExecutionOutcome) : RunState :=
  if outcome = .succeeded then .succeeded
  else if run.attemptCount < run.maxAttempts then .queued
  else .failed

-- `initial.saturating_mul(1 << attempt_count.saturating_sub(1).min(20))`, capped.
def backoffBase (run : Run) : Nat :=
  let exponential := min (run.initialBackoffSeconds * 2 ^ min (run.attemptCount - 1) 20) (2 ^ 64 - 1)
  min exponential run.backoffCapSeconds

-- The delay before the next attempt, where `random` is what `gen_range` draws from.
def backoffSeconds (run : Run) (random : Nat) : Nat :=
  run.backoffBase + random % (max (run.backoffBase / 5) 1 + 1)

end Run

namespace Store

variable (s : Store)

def attemptsOf (runId : Uuid) : List Attempt :=
  s.attempts.select (·.runId = runId)

-- `SELECT COUNT(*) FROM attempts WHERE run_id=? AND accepted_at IS NOT NULL`
def acceptedCount (runId : Uuid) : Nat :=
  s.attemptsOf runId |>.countP (·.acceptedAt.isSome)

def maxAttemptNumber (runId : Uuid) : Nat :=
  s.attemptsOf runId |>.map (·.attemptNumber) |>.foldl max 0

-- The row that `INSERT INTO attempts` writes; `id` and `leaseToken` are drawn for it.
def newAttempt (runId : Uuid) (agentId : String) (leaseSeconds : Nat) (id : Uuid)
    (leaseToken : String) (now : Time) : Attempt where
  id
  runId
  agentId
  attemptNumber   := s.maxAttemptNumber runId + 1
  leaseToken
  state           := .offered
  leaseExpiresAt  := now + .seconds leaseSeconds
  acceptedAt      := none
  startedAt       := none
  finishedAt      := none
  encryptedResult := none
  outcome         := none
  diagnostic      := none
  output          := none
  exitCode        := none
  signal          := none
  durationMs      := none
  createdAt       := now

def createAttempt (runId : Uuid) (agentId : String) (leaseSeconds : Nat) (id : Uuid)
    (leaseToken : String) (now : Time) : Transaction (Option Attempt) :=
  match s.runs.get? runId with
  | none     => .commit none s
  | some run =>
    if run.state ≠ .queued then
      .commit none s
    else
      let attempt := s.newAttempt runId agentId leaseSeconds id leaseToken now
      match s.attempts.insert attempt with
      | none          => .error .uniqueViolation
      | some attempts =>
        let runs := s.runs.update (fun r => r.id = runId && r.state = .queued) fun r =>
          { r with state := .running }
        let s₁ : Store := { s with attempts, runs }
        .commit (some attempt) <|
          (s₁.syncBatchRunState runId .running).appendAudit (.run runId) .attemptOffered

-- The run of an offer that came to nothing goes back to the queue, unless it is no longer running.
-- The batch is told that the run is queued in either case.
def requeueRun (runId : Uuid) (f : Run → Run)
    (hf : ∀ r, Keyed.key (f r) = Keyed.key r := by exact Keyed.keeps fun _ => rfl) : Store :=
  let running (r : Run) : Bool := r.id = runId && r.state = .running
  { s with runs := s.runs.update running f hf }.syncBatchRunState runId .queued

def releaseOffer (attemptId : Uuid) : Transaction Unit :=
  match s.attempts.get? attemptId with
  | none         => .commit () s
  | some attempt =>
    if attempt.state ≠ .offered then
      .commit () s
    else
      let attempts := s.attempts.update (·.id = attemptId) fun a => { a with state := .offerFailed }
      .commit () <|
        { s with attempts }.requeueRun attempt.runId fun r => { r with state := .queued }

def rejectOffer (attemptId : Uuid) (leaseToken : String) (result : ExecutionResult)
    (encrypted : Sealed ExecutionResult) (now : Time) : Transaction Unit :=
  match s.attempts.get? attemptId with
  | none         => .bail "attempt offer or lease token is invalid"
  | some attempt =>
    if attempt.leaseToken ≠ leaseToken || attempt.state ≠ .offered then
      .bail "attempt offer or lease token is invalid"
    else
      let attempts := s.attempts.update (·.id = attemptId) (·.reject result encrypted now)
      let s₁ := { s with attempts }.requeueRun attempt.runId fun r =>
        { r with state := .queued, notBefore := now }
      .commit () <| s₁.appendAudit (.run attempt.runId) .attemptRejectedBeforeAcceptance

def acceptAttempt (attemptId : Uuid) (leaseToken : String) (leaseSeconds : Nat) (now : Time) :
    Transaction Unit :=
  match s.attempts.get? attemptId with
  | none         => .bail "attempt or lease token is invalid"
  | some attempt =>
    if attempt.leaseToken ≠ leaseToken || !attempt.state.isLeased then
      .bail "attempt or lease token is invalid"
    else
      let attempts := s.attempts.update (·.id = attemptId) (·.accept leaseSeconds now)
      let s₁ : Store := { s with attempts }
      let runs := s.runs.update (·.id = attempt.runId) fun r =>
        { r with attemptCount := s₁.acceptedCount attempt.runId - r.attemptOffset }
      .commit () <| { s₁ with runs }.appendAudit (.run attempt.runId) .attemptAccepted

-- The row that a heartbeat renews.
def renewable (agentId : String) (attemptId : Uuid) (a : Attempt) : Bool :=
  a.id = attemptId && a.agentId = agentId && a.state = .accepted

def renewAttempts (agentId : String) (attemptIds : List Uuid) (leaseSeconds running : Nat)
    (now : Time) : Transaction (List Uuid) :=
  let renewed := attemptIds.filter fun id => s.attempts.rows.any (renewable agentId id)
  let attempts := s.attempts.update (fun a => attemptIds.any (renewable agentId · a)) fun a =>
    { a with leaseExpiresAt := now + .seconds leaseSeconds }
  let agents := s.agents.update (·.id = agentId) fun g =>
    { g with running, lastSeenAt := now, connected := true }
  .commit renewed { s with attempts, agents }

def reauthorizeAttempt (attemptId : Uuid) (agentId leaseToken : String) (leaseSeconds : Nat)
    (now : Time) : Transaction Bool :=
  match s.attempts.get? attemptId with
  | none         => .commit false s
  | some attempt =>
    let owned := attempt.agentId = agentId && attempt.leaseToken = leaseToken && attempt.state = .accepted
    let running := (s.runs.get? attempt.runId).any (·.state = .running)
    if owned && running && now < attempt.leaseExpiresAt then
      let attempts := s.attempts.update (·.id = attemptId) fun a =>
        { a with leaseExpiresAt := now + .seconds leaseSeconds }
      .commit true { s with attempts }
    else
      .commit false s

-- The branch of `finish_attempt_inner` for a run that was cancelled in the meantime.
def recordLateResult (attempt : Attempt) (result : ExecutionResult)
    (encrypted : Sealed ExecutionResult) : Store :=
  let attempts := s.attempts.update (·.id = attempt.id) (·.recordResult .lateResult result encrypted)
  { s with attempts }.updateNodeProcessingStats attempt.agentId result
    |>.appendAudit (.run attempt.runId) .attemptLateResult

-- The branch that decides how the run goes on. The `UPDATE runs` has no condition on its state.
def applyResult (attempt : Attempt) (run : Run) (result : ExecutionResult)
    (encrypted : Sealed ExecutionResult) (random : Nat) (now : Time) : Store :=
  let attempts := s.attempts.update (·.id = attempt.id) (·.recordResult .finished result encrypted)
  let s₁ := { s with attempts }.updateNodeProcessingStats attempt.agentId result
  let state := run.stateAfter result.outcome
  let notBefore := now + .seconds (run.backoffSeconds random)
  let runs := s₁.runs.update (·.id = run.id) fun r => { r with state, notBefore }
  let event : EventType :=
    if result.outcome = .succeeded then .runSucceeded
    else if state = .queued then .runRetryScheduled
    else .runFailed
  { s₁ with runs }.updateDailyScheduleStats run state result
    |>.syncBatchRunState run.id state
    |>.appendAudit (.run run.id) event

def finishAttemptInner (attemptId : Uuid) (leaseToken : String) (result : ExecutionResult)
    (encrypted : Sealed ExecutionResult) (requireExpiredLease : Bool) (random : Nat) (now : Time) :
    Transaction (Option RunState) :=
  match s.attempts.get? attemptId with
  | none         => .bail "attempt or lease token is invalid"
  | some attempt =>
    match s.runs.get? attempt.runId with
    | none     => .bail "attempt or lease token is invalid"
    | some run =>
      if attempt.leaseToken ≠ leaseToken then
        .bail "attempt or lease token is invalid"
      else if requireExpiredLease && attempt.state ≠ .expiring then
        .commit none s
      else if !requireExpiredLease && attempt.state = .expiring then
        .commit (some run.state) s
      else if attempt.state = .finished || attempt.state = .lateResult then
        .commit (some run.state) s
      else if run.state = .cancelled then
        .commit (some .cancelled) <| s.recordLateResult attempt result encrypted
      else
        .commit (some <| run.stateAfter result.outcome) <|
          s.applyResult attempt run result encrypted random now

def finishAttempt (attemptId : Uuid) (leaseToken : String) (result : ExecutionResult)
    (encrypted : Sealed ExecutionResult) (random : Nat) (now : Time) : Transaction RunState :=
  match s.finishAttemptInner attemptId leaseToken result encrypted false random now with
  | .error e             => .error e
  | .ok (none, _)        => .bail "attempt unexpectedly stopped being eligible"
  | .ok (some state, s₁) => .commit state s₁

def finishExpiredAttempt (attemptId : Uuid) (leaseToken : String) (result : ExecutionResult)
    (encrypted : Sealed ExecutionResult) (random : Nat) (now : Time) :
    Transaction (Option RunState) :=
  s.finishAttemptInner attemptId leaseToken result encrypted true random now

-- One compare-and-swap of `claim_expired_attempts`: the lease that was read has run out and is still
-- the one in the row.
def claimExpiredAttempt (attemptId : Uuid) (graceSeconds : Nat) (now : Time) :
    Transaction (Option Attempt) :=
  match s.attempts.get? attemptId with
  | none         => .commit none s
  | some attempt =>
    if attempt.state.isLeased && attempt.leaseExpiresAt + .seconds graceSeconds < now then
      let attempts := s.attempts.update (·.id = attemptId) fun a => { a with state := .expiring }
      .commit (some attempt) { s with attempts }
    else
      .commit none s

def cancelRun (runId : Uuid) (now : Time) : Transaction (List (String × Uuid)) :=
  match s.runs.get? runId with
  | none     => .bail "run is already terminal or does not exist"
  | some run =>
    if run.state.isTerminal then
      .bail "run is already terminal or does not exist"
    else
      let runs := s.runs.update (fun r => r.id = runId && r.state.isActive)
        ({ · with state := .cancelled }) (Run.keeps_state .cancelled)
      let s₁ := { s with runs }.incrementCancelledRollup run.scheduleId 1 now
        |>.syncBatchRunState runId .cancelled
      .commit (s₁.acceptedAttempts (· = runId)) <| s₁.appendAudit (.run runId) .runCancelled

def retryRun (runId : Uuid) (now : Time) : Transaction Unit :=
  let s₁ := s.decrementFailedRollup runId now
  let failed (r : Run) : Bool := r.id = runId && r.state = .failed
  if s₁.runs.rows.any failed then
    let runs := s₁.runs.update failed fun r =>
      { r with
        state         := .queued
        attemptCount  := 0
        attemptOffset := s₁.acceptedCount runId
        notBefore     := now
      }
    .commit () <|
      ({ s₁ with runs }.syncBatchRunState runId .queued).appendAudit (.run runId) .runRetried
  else
    .bail "only failed runs can be retried"

end Store

end Scheduler
