import TaskScheduler.Core.Json

namespace Scheduler

abbrev Uuid := Nat

-- Milliseconds since the Unix epoch.
abbrev Time := Int

namespace Time

def seconds (n : Nat) : Time :=
  1000 * n

def minutes (n : Nat) : Time :=
  seconds (60 * n)

-- The calendar day that keys the daily rollups (`strftime('%Y-%m-%d', …)`).
def day (t : Time) : Int :=
  t / 86400000

end Time

inductive RunState
  | queued
  | running
  | succeeded
  | failed
  | cancelled
  deriving DecidableEq, Repr

namespace RunState

def isTerminal : RunState → Bool
  | queued | running               => false
  | succeeded | failed | cancelled => true

-- The `WHERE state IN ('queued','running')` of the store's queries.
def isActive (s : RunState) : Bool :=
  !s.isTerminal

end RunState

-- The `state` column of `attempts`, which the store writes as text.
inductive AttemptState
  | offered
  | accepted
  | expiring
  | finished
  | lateResult
  | offerFailed
  deriving DecidableEq, Repr

-- An attempt is active while an agent may still hold its assignment.
def AttemptState.isActive : AttemptState → Bool
  | offered | accepted | expiring       => true
  | finished | lateResult | offerFailed => false

inductive ExecutionOutcome
  | succeeded
  | failed
  | infrastructureError
  | timedOut
  | cancelled
  | leaseExpired
  deriving DecidableEq, Repr

inductive FailureCode
  | assignmentRejected
  | parameterBindingFailed
  | executorStartFailed
  | executorProcessCrashed
  | executorProtocolError
  | processSpawnFailed
  | processIsolationFailed
  | processExitedNonZero
  | processCrashed
  | processTimedOut
  | cancelled
  | agentLeaseExpired
  | excelUnsupported
  | excelStartupFailed
  | excelWorkbookOpenFailed
  | excelCorrelationSetupFailed
  | excelMacroFailed
  | excelMacroReturnedFailure
  | excelInvalidReturn
  | excelProcessCrashed
  | excelCleanupFailed
  | infrastructureError
  deriving DecidableEq, Repr

-- The two codes by which a task itself reports failure.
def FailureCode.isBusinessFailure : FailureCode → Bool
  | processExitedNonZero | excelMacroReturnedFailure => true
  | _                                                => false

inductive FailureOrigin
  | coordinator
  | agent
  | taskExecutor
  | commandProcess
  | excelHostProcess
  | excelAutomation
  | excelMacro
  deriving DecidableEq, Repr

inductive FailureStage
  | placement
  | validation
  | parameterBinding
  | executorStart
  | processStart
  | isolation
  | execution
  | excelStartup
  | workbookOpen
  | correlationSetup
  | macroInvoke
  | macroResult
  | cleanup
  | resultDecode
  | lease
  | cancellation
  deriving DecidableEq, Repr

structure FailureDiagnostic where
  code      : FailureCode
  origin    : FailureOrigin
  stage     : FailureStage
  summary   : String
  retryable : Bool
  deriving DecidableEq, Repr

structure OutputMetadata where
  stdoutBytes     : Nat  := 0
  stderrBytes     : Nat  := 0
  stdoutTruncated : Bool := false
  stderrTruncated : Bool := false
  deriving DecidableEq, Repr

structure ExecutionResult where
  outcome    : ExecutionOutcome
  exitCode   : Option Int
  signal     : Option String
  stdout     : String
  stderr     : String
  startedAt  : Time
  finishedAt : Time
  error      : Option String
  output     : OutputMetadata
  diagnostic : Option FailureDiagnostic
  deriving DecidableEq, Repr

-- The part of a resolved execution that coordinator bookkeeping reads back.
structure ExecutionSnapshot where
  blueprintDigest  : String
  parametersDigest : String
  deriving DecidableEq, Repr

structure ExecutionPolicy where
  maxAttempts           : Nat
  timeoutSeconds        : Nat
  initialBackoffSeconds : Nat
  backoffCapSeconds     : Nat
  deriving DecidableEq, Repr

-- The executor is the JSON value of its specification; of the bindings only the names matter here.
structure Blueprint where
  executor          : Json
  parametersSchema  : Json
  parameterBindings : List String
  policy            : ExecutionPolicy
  deriving Repr

structure ResolvedScheduleSnapshot where
  blueprint      : Blueprint
  baseParameters : Json
  deriving Repr

-- A ciphertext is represented by what it decrypts to, `none` for bytes that do not decrypt.
abbrev Sealed (α : Type) := Option α

inductive BatchState
  | scheduled
  | collecting
  | running
  | succeeded
  | completedWithErrors
  | failed
  | cancelled
  deriving DecidableEq, Repr

inductive BatchItemState
  | ready
  | queued
  | running
  | succeeded
  | failed
  | cancelled
  | invalid
  | suspectedPoison
  | poisoned
  | held
  deriving DecidableEq, Repr

-- `sync_batch_run_state_tx` copies the name of the run state into the item.
def RunState.itemState : RunState → BatchItemState
  | queued    => .queued
  | running   => .running
  | succeeded => .succeeded
  | failed    => .failed
  | cancelled => .cancelled

end Scheduler
