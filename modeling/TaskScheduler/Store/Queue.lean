import TaskScheduler.Library.Ranking
import TaskScheduler.Store.Health

namespace Scheduler

-- `ORDER BY created_at,id`
def Run.age (run : Run) : Time ×ₗ Uuid :=
  toLex (run.createdAt, run.id)

-- The codes of failures that are the business of the task alone.
def FailureCode.isBusiness : FailureCode → Bool
  | processExitedNonZero | excelMacroReturnedFailure => true
  | _                                                => false

namespace Store

variable (s : Store)

-- The attempt failed in a way that has to be classified, and was not yet.
def isUnclassified (a : Attempt) : Bool :=
  a.state = .finished && !(a.outcome = some .succeeded || a.outcome = some .cancelled) &&
    !a.diagnostic.any (·.code.isBusiness) && !s.healthEvidence.rows.any (·.attemptId = some a.id)

-- A run waits until its failures have been classified.
def isFenced (runId : Uuid) : Bool :=
  s.attempts.rows.any fun a => a.runId = runId && s.isUnclassified a

section Selection

variable (now : Time)

def isEligible (run : Run) : Bool :=
  run.state = .queued && run.notBefore ≤ now && !s.isFenced run.id

def eligibleRuns : List Run :=
  s.runs.select (s.isEligible now)

def scheduleRank (run : Run) : Nat :=
  Ranking.rank (·.scheduleId) Run.age (s.eligibleRuns now) run

def batchRank (run : Run) : Nat :=
  Ranking.rank (·.batchId) Run.age (s.eligibleRuns now) run

def batchRunning (batchId : Uuid) : Nat :=
  s.runs.rows.countP fun r => r.batchId = some batchId && r.state = .running

-- `batch_id IS NULL OR batch_rank<=MAX(0,max_active_runs-batch_running)`
def withinCap (run : Run) : Bool :=
  match run.batchId with
  | none         => true
  | some batchId => (s.batches.get? batchId).any fun b =>
      s.batchRank now run ≤ b.maxActiveRuns - s.batchRunning batchId

def queuedRuns (limit : Nat) : List Run :=
  (s.eligibleRuns now).filter (s.withinCap now)
    |> Ranking.first (fun run => toLex (s.scheduleRank now run, run.age)) (min limit 500)

end Selection

-- The nodes that are not offered the run again as long as there are others.
def retryAvoidedAgents (runId : Uuid) : List String :=
  s.healthEvidence.select (fun e => e.runId = runId && e.classification.class.isFailure && !e.retracted)
    |>.map (·.agentId) |>.dedup

-- A node that rejected the run is never offered it again.
def retryRequiresAlternativeAgent (runId : Uuid) : Bool :=
  s.healthEvidence.rows.any fun e => e.runId = runId && !e.retracted &&
    e.diagnostic.any fun d => d.code = .parameterBindingFailed || d.code = .assignmentRejected

end Store

end Scheduler
