import TaskScheduler.Library.Table
import TaskScheduler.Core.Health

namespace Scheduler

-- The trigger kinds that the coordinator writes, and any other text a caller of the store passes.
inductive TriggerKind
  | manual
  | webhook
  | cron
  | retrigger
  | batchItem
  | other (name : String)
  deriving DecidableEq, Repr

structure CronSpec where
  expression : String
  timezone   : String
  deriving DecidableEq, Repr

structure ParameterCollectionSpec where
  sourceUri           : String
  pageSize            : Nat
  maxItems            : Nat
  maxActiveRuns       : Nat
  poisonDistinctNodes : Nat
  deriving DecidableEq, Repr

structure ScheduleSpec where
  name                : String
  parameterCollection : Option ParameterCollectionSpec
  cron                : Option CronSpec
  webhookEnabled      : Bool
  enabled             : Bool
  deriving DecidableEq, Repr

-- Bytes that the store keeps without looking into them.
abbrev Blob := String

-- A row of `schedules`.
structure Schedule where
  id                : Uuid
  spec              : ScheduleSpec
  encryptedSnapshot : Sealed ResolvedScheduleSnapshot
  revision          : Int
  enabled           : Bool
  cronExpression    : Option String
  cronTimezone      : Option String
  lastCronAt        : Option Time
  webhookEnabled    : Bool
  webhookPublicId   : Option String
  webhookSecretHash : Option String
  createdAt         : Time
  deriving Repr

-- A row of `runs`.
structure Run where
  id                    : Uuid
  scheduleId            : Uuid
  state                 : RunState
  triggerKind           : TriggerKind
  scheduledAt           : Time
  notBefore             : Time
  encryptedSnapshot     : Sealed ExecutionSnapshot
  maxAttempts           : Nat
  initialBackoffSeconds : Nat
  backoffCapSeconds     : Nat
  attemptCount          : Nat
  attemptOffset         : Nat
  idempotencyKey        : Option String
  batchId               : Option Uuid
  batchItemId           : Option Uuid
  createdAt             : Time
  deriving DecidableEq, Repr

-- A row of `attempts`. The columns of a result are empty until one is recorded.
structure Attempt where
  id              : Uuid
  runId           : Uuid
  agentId         : String
  attemptNumber   : Nat
  leaseToken      : String
  state           : AttemptState
  leaseExpiresAt  : Time
  acceptedAt      : Option Time
  startedAt       : Option Time
  finishedAt      : Option Time
  encryptedResult : Option (Sealed ExecutionResult)
  outcome         : Option ExecutionOutcome
  diagnostic      : Option FailureDiagnostic
  output          : Option OutputMetadata
  exitCode        : Option Int
  signal          : Option String
  durationMs      : Option Int
  createdAt       : Time
  deriving DecidableEq, Repr

-- A row of `agents`.
structure Agent where
  id         : String
  hostname   : String
  labels     : List (String × String)
  capacity   : Nat
  running    : Nat
  connected  : Bool
  lastSeenAt : Time
  createdAt  : Time
  deriving DecidableEq, Repr

inductive TriggerTarget
  | run   (id : Uuid)
  | batch (id : Uuid)
  deriving DecidableEq, Repr

-- A row of `trigger_identities`.
structure TriggerIdentity where
  id             : Uuid
  scheduleId     : Uuid
  triggerKind    : TriggerKind
  scheduledAt    : Time
  idempotencyKey : Option String
  target         : TriggerTarget
  createdAt      : Time
  deriving DecidableEq, Repr

-- A row of `batches`.
structure Batch where
  id                       : Uuid
  triggerIdentityId        : Uuid
  scheduleId               : Uuid
  scheduleRevision         : Int
  state                    : BatchState
  triggerKind              : TriggerKind
  scheduledAt              : Time
  encryptedSnapshot        : Blob
  encryptedOverrides       : Option Blob
  snapshotDigest           : String
  pageSize                 : Nat
  maxItems                 : Nat
  maxActiveRuns            : Nat
  poisonDistinctNodes      : Nat
  collectionSnapshot       : Option Blob
  collectionSnapshotDigest : Option String
  nextCursor               : Option Blob
  nextCursorDigest         : String
  cursorGeneration         : Nat
  ingestionComplete        : Bool
  itemCount                : Int
  validItemCount           : Int
  invalidItemCount         : Int
  poisonedItemCount        : Int
  heldItemCount            : Int
  leaseOwner               : Option String
  leaseToken               : Option String
  leaseExpiresAt           : Option Time
  failureCode              : Option String
  finalizedAt              : Option Time
  createdAt                : Time
  deriving DecidableEq, Repr

-- A row of `batch_collection_pages`.
structure CollectionPage where
  batchId                  : Uuid
  generation               : Nat
  requestCursorDigest      : String
  pageDigest               : String
  collectionSnapshotDigest : String
  nextCursor               : Option Blob
  nextCursorDigest         : String
  itemCount                : Nat
  isFinal                  : Bool
  createdAt                : Time
  deriving DecidableEq, Repr

-- A row of `batch_items`.
structure BatchItem where
  id                    : Uuid
  batchId               : Uuid
  itemIndex             : Nat
  providerKeyHmac       : String
  encryptedSnapshot     : Option (Sealed ExecutionSnapshot)
  parametersDigest      : String
  maxAttempts           : Option Nat
  initialBackoffSeconds : Option Nat
  backoffCapSeconds     : Option Nat
  state                 : BatchItemState
  failureCode           : Option String
  runId                 : Option Uuid
  createdAt             : Time
  deriving DecidableEq, Repr

-- A row of `health_evidence`.
structure HealthEvidence where
  id                : Uuid
  attemptId         : Option Uuid
  runId             : Uuid
  scheduleId        : Uuid
  agentId           : String
  blueprintDigest   : String
  inputFingerprint  : String
  classification    : HealthClassification
  diagnostic        : Option FailureDiagnostic
  nodeWasHealthy    : Bool
  clusterSuppressed : Bool
  retracted         : Bool
  occurredAt        : Time
  createdAt         : Time
  deriving DecidableEq, Repr

-- A row of `input_health`.
structure InputHealth where
  blueprintDigest      : String
  inputFingerprint     : String
  state                : InputHealthState
  failureFamily        : Option FailureFamily
  distinctHealthyNodes : Nat
  probeAvailable       : Bool
  revision             : Nat
  updatedAt            : Time
  deriving DecidableEq, Repr

-- A row of `node_health`.
structure NodeHealth where
  agentId                  : String
  state                    : NodeHealthState
  reasonCode               : Option String
  distinctFailedInputs     : Nat
  distinctSchedules        : Nat
  consideredObservations   : Nat
  failureRate              : ℚ
  probationFunctionalCount : Nat
  probationDistinctInputs  : Nat
  revision                 : Nat
  transitionedAt           : Time
  deriving DecidableEq, Repr

-- A row of `daily_schedule_stats`.
structure DailyScheduleStats where
  scheduleId           : Uuid
  day                  : Int
  succeeded            : Nat := 0
  businessFailed       : Nat := 0
  infrastructureFailed : Nat := 0
  cancelled            : Nat := 0
  retries              : Nat := 0
  durationCount        : Nat := 0
  durationSumMs        : Int := 0
  deriving DecidableEq, Repr

-- A row of `node_processing_stats`.
structure NodeProcessingStats where
  agentId         : String
  processedTasks  : Nat
  succeeded       : Nat
  failed          : Nat
  cancelled       : Nat
  lastProcessedAt : Time
  deriving DecidableEq, Repr

inductive Entity
  | schedule    (id : Uuid)
  | run         (id : Uuid)
  | batch       (id : Uuid)
  | batchItem   (id : Uuid)
  | agent       (id : String)
  | node        (id : String)
  | inputHealth (fingerprint : String)
  deriving DecidableEq, Repr

inductive EventType
  | scheduleCreated
  | scheduleUpdated
  | scheduleResumed
  | schedulePaused
  | scheduleWebhookRotated
  | runQueued
  | runSucceeded
  | runRetryScheduled
  | runFailed
  | runCancelled
  | runRetried
  | attemptOffered
  | attemptRejectedBeforeAcceptance
  | attemptAccepted
  | attemptLateResult
  | batchScheduled
  | batchRetriggered
  | batchPageCommitted
  | batchFinalized
  | batchFailed
  | batchCancelled
  | batchReopened
  | batchCompleted
  | batchPoisonConfirmed
  | batchItemPoisonConfirmed
  | healthEvidenceRecorded
  | inputHealthTransitioned
  | inputHealthProbeGranted
  | inputHealthProbeConsumed
  | nodeHealthTransitioned
  | nodeHealthManuallyQuarantined
  | nodeHealthResetToProbation
  | agentConnected
  | agentDisconnected
  deriving DecidableEq, Repr

structure AuditEvent where
  entity : Entity
  event  : EventType
  deriving DecidableEq, Repr

instance : Keyed Schedule Uuid                   := ⟨Schedule.id⟩
instance : Keyed Run Uuid                        := ⟨Run.id⟩
instance : Keyed Attempt Uuid                    := ⟨Attempt.id⟩
instance : Keyed Agent String                    := ⟨Agent.id⟩
instance : Keyed TriggerIdentity Uuid            := ⟨TriggerIdentity.id⟩
instance : Keyed Batch Uuid                      := ⟨Batch.id⟩
instance : Keyed CollectionPage (Uuid × Nat)     := ⟨fun p => (p.batchId, p.generation)⟩
instance : Keyed BatchItem Uuid                  := ⟨BatchItem.id⟩
instance : Keyed HealthEvidence Uuid             := ⟨HealthEvidence.id⟩
instance : Keyed InputHealth (String × String)   := ⟨fun i => (i.blueprintDigest, i.inputFingerprint)⟩
instance : Keyed NodeHealth String               := ⟨NodeHealth.agentId⟩
instance : Keyed DailyScheduleStats (Uuid × Int) := ⟨fun d => (d.scheduleId, d.day)⟩
instance : Keyed NodeProcessingStats String      := ⟨NodeProcessingStats.agentId⟩

-- Assignments that several statements make leave the primary keys alone.
theorem Run.keeps_state (st : RunState) (r : Run) :
    Keyed.key { r with state := st } = Keyed.key r :=
  rfl

theorem BatchItem.keeps_state (st : BatchItemState) (i : BatchItem) :
    Keyed.key { i with state := st } = Keyed.key i :=
  rfl

theorem BatchItem.keeps_queued (runId : Uuid) (i : BatchItem) :
    Keyed.key { i with state := .queued, runId := some runId } = Keyed.key i :=
  rfl

theorem BatchItem.keeps_poisoned (i : BatchItem) :
    Keyed.key { i with state := .poisoned, failureCode := some "collection_input_poisoned" } =
      Keyed.key i :=
  rfl

theorem Batch.keeps_cancelled (b : Batch) :
    Keyed.key { b with
      state          := .cancelled
      leaseOwner     := none
      leaseToken     := none
      leaseExpiresAt := none
    } = Keyed.key b :=
  rfl

-- The tables that the coordinator's transactions read and write.
@[ext]
structure Store where
  schedules            : Table Schedule
  runs                 : Table Run
  attempts             : Table Attempt
  agents               : Table Agent
  triggerIdentities    : Table TriggerIdentity
  batches              : Table Batch
  batchCollectionPages : Table CollectionPage
  batchItems           : Table BatchItem
  healthEvidence       : Table HealthEvidence
  inputHealth          : Table InputHealth
  nodeHealth           : Table NodeHealth
  dailyScheduleStats   : Table DailyScheduleStats
  nodeProcessingStats  : Table NodeProcessingStats
  auditEvents          : List AuditEvent

namespace Store

-- The store that `Store::open` creates.
def empty : Store where
  schedules            := ∅
  runs                 := ∅
  attempts             := ∅
  agents               := ∅
  triggerIdentities    := ∅
  batches              := ∅
  batchCollectionPages := ∅
  batchItems           := ∅
  healthEvidence       := ∅
  inputHealth          := ∅
  nodeHealth           := ∅
  dailyScheduleStats   := ∅
  nodeProcessingStats  := ∅
  auditEvents          := []

def appendAudit (s : Store) (entity : Entity) (event : EventType) : Store :=
  { s with auditEvents := s.auditEvents ++ [⟨entity, event⟩] }

section

variable {s : Store} {entity : Entity} {event : EventType}

@[simp]
theorem appendAudit_runs : (s.appendAudit entity event).runs = s.runs := rfl

@[simp]
theorem appendAudit_attempts : (s.appendAudit entity event).attempts = s.attempts := rfl

@[simp]
theorem appendAudit_batches : (s.appendAudit entity event).batches = s.batches := rfl

@[simp]
theorem appendAudit_batchItems : (s.appendAudit entity event).batchItems = s.batchItems := rfl

end

end Store

-- The ways in which a transaction is rolled back and reported to its caller.
inductive StoreError
  | bail (message : String)
  | uniqueViolation
  | foreignKeyViolation
  | panicked
  deriving DecidableEq, Repr

-- A transaction commits a new store together with its result, or leaves the store as it was.
abbrev Transaction (α : Type) := Except StoreError (α × Store)

namespace Transaction

def commit (result : α) (s : Store) : Transaction α :=
  .ok (result, s)

def bail (message : String) : Transaction α :=
  .error <| .bail message

-- The store that is persisted once the transaction ended.
def persisted (t : Transaction α) (s : Store) : Store :=
  match t with
  | .ok (_, s') => s'
  | .error _    => s

variable {α : Type} {s s' : Store} {result : α} {message : String} {e : StoreError}

@[simp]
theorem persisted_commit : (commit result s').persisted s = s' := rfl

@[simp]
theorem persisted_ok : persisted (.ok (result, s') : Transaction α) s = s' := rfl

@[simp]
theorem persisted_bail : (bail message : Transaction α).persisted s = s := rfl

@[simp]
theorem persisted_error : persisted (.error e : Transaction α) s = s := rfl

end Transaction

end Scheduler
