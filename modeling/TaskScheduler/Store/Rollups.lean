import TaskScheduler.Store.Schema

namespace Scheduler

-- The order of `ORDER BY finished_at DESC, created_at DESC, id DESC`, in which `NULL` comes last.
def Attempt.isNewerThan (a b : Attempt) : Bool :=
  match a.finishedAt, b.finishedAt with
  | some _, none     => true
  | none, some _     => false
  | none, none       => decide (b.createdAt < a.createdAt) || tie
  | some t₁, some t₂ =>
    decide (t₂ < t₁) || (decide (t₁ = t₂) && (decide (b.createdAt < a.createdAt) || tie))
where
  tie : Bool := decide (a.createdAt = b.createdAt) && decide (b.id < a.id)

def ExecutionResult.durationMs (r : ExecutionResult) : Int :=
  max 0 (r.finishedAt - r.startedAt)

-- `result.diagnostic.as_ref().is_some_and(…)` of both rollup functions.
def isBusinessFailure (diagnostic : Option FailureDiagnostic) : Bool :=
  diagnostic.any (·.code.isBusinessFailure)

namespace Store

variable (s : Store)

def updateDailyScheduleStats (run : Run) (state : RunState) (result : ExecutionResult) : Store :=
  let businessFailure := state = .failed && isBusinessFailure result.diagnostic
  let row : DailyScheduleStats := {
    scheduleId           := run.scheduleId
    day                  := result.finishedAt.day
    succeeded            := if state = .succeeded then 1 else 0
    businessFailed       := if businessFailure then 1 else 0
    infrastructureFailed := if state = .failed && !businessFailure then 1 else 0
    retries              := if state = .queued then 1 else 0
    durationCount        := 1
    durationSumMs        := result.durationMs
  }
  { s with
    dailyScheduleStats := s.dailyScheduleStats.upsert row fun d =>
      { d with
        succeeded            := d.succeeded + row.succeeded
        businessFailed       := d.businessFailed + row.businessFailed
        infrastructureFailed := d.infrastructureFailed + row.infrastructureFailed
        retries              := d.retries + row.retries
        durationCount        := d.durationCount + 1
        durationSumMs        := d.durationSumMs + row.durationSumMs
      }
  }

def updateNodeProcessingStats (agentId : String) (result : ExecutionResult) : Store :=
  let row : NodeProcessingStats := {
    agentId
    processedTasks  := 1
    succeeded       := if result.outcome = .succeeded then 1 else 0
    failed          := if result.outcome = .succeeded || result.outcome = .cancelled then 0 else 1
    cancelled       := if result.outcome = .cancelled then 1 else 0
    lastProcessedAt := result.finishedAt
  }
  { s with
    nodeProcessingStats := s.nodeProcessingStats.upsert row fun n =>
      { n with
        processedTasks  := n.processedTasks + 1
        succeeded       := n.succeeded + row.succeeded
        failed          := n.failed + row.failed
        cancelled       := n.cancelled + row.cancelled
        lastProcessedAt := max n.lastProcessedAt row.lastProcessedAt
      }
  }

-- `increment_cancelled_rollup_tx` with a count of one; `cancel_batch` counts whole groups.
def incrementCancelledRollup (scheduleId : Uuid) (count : Nat) (occurredAt : Time) : Store :=
  let row : DailyScheduleStats := { scheduleId, day := occurredAt.day, cancelled := count }
  { s with
    dailyScheduleStats := s.dailyScheduleStats.upsert row fun d =>
      { d with cancelled := d.cancelled + count }
  }

def latestAttempt (runId : Uuid) : Option Attempt :=
  s.attempts.select (·.runId = runId) |>.foldl keepNewer none
where
  keepNewer (best : Option Attempt) (a : Attempt) : Option Attempt :=
    if best.any (·.isNewerThan a) then best else some a

def decrementFailedRollup (runId : Uuid) (now : Time) : Store :=
  match s.runs.get? runId with
  | none     => s
  | some run =>
    if run.state ≠ .failed then
      s
    else
      let latest := s.latestAttempt runId
      let business := isBusinessFailure <| latest.bind (·.diagnostic)
      let day := latest.bind (·.finishedAt) |>.getD now |>.day
      { s with
        dailyScheduleStats :=
          s.dailyScheduleStats.update (fun d => d.scheduleId = run.scheduleId && d.day = day) fun d =>
            { d with
              businessFailed       := d.businessFailed - if business then 1 else 0
              infrastructureFailed := d.infrastructureFailed - if business then 0 else 1
            }
      }

section

variable {s : Store}

-- The rollups write to nothing but their own tables.
theorem decrementFailedRollup_eq (s : Store) (runId : Uuid) (now : Time) :
    ∃ stats, s.decrementFailedRollup runId now = { s with dailyScheduleStats := stats } := by
  unfold decrementFailedRollup
  split
  case h_1 => exact ⟨_, rfl⟩
  case h_2 => split <;> exact ⟨_, rfl⟩

@[simp]
theorem decrementFailedRollup_runs {runId now} : (s.decrementFailedRollup runId now).runs = s.runs := by
  have ⟨_, h⟩ := s.decrementFailedRollup_eq runId now
  rw [h]

@[simp]
theorem decrementFailedRollup_attempts {runId now} :
    (s.decrementFailedRollup runId now).attempts = s.attempts := by
  have ⟨_, h⟩ := s.decrementFailedRollup_eq runId now
  rw [h]

end

end Store

end Scheduler
