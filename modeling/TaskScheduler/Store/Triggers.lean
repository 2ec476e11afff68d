import TaskScheduler.Store.Schedules

namespace Scheduler

structure NewRun where
  id                    : Uuid
  scheduleId            : Uuid
  triggerKind           : TriggerKind
  scheduledAt           : Time
  encryptedSnapshot     : Sealed ExecutionSnapshot
  maxAttempts           : Nat
  initialBackoffSeconds : Nat
  backoffCapSeconds     : Nat
  idempotencyKey        : Option String

-- The row that `INSERT INTO runs` writes for a run which does not belong to a batch.
def NewRun.row (new : NewRun) (now : Time) : Run where
  id                    := new.id
  scheduleId            := new.scheduleId
  state                 := .queued
  triggerKind           := new.triggerKind
  scheduledAt           := new.scheduledAt
  notBefore             := new.scheduledAt
  encryptedSnapshot     := new.encryptedSnapshot
  maxAttempts           := new.maxAttempts
  initialBackoffSeconds := new.initialBackoffSeconds
  backoffCapSeconds     := new.backoffCapSeconds
  attemptCount          := 0
  attemptOffset         := 0
  idempotencyKey        := new.idempotencyKey
  batchId               := none
  batchItemId           := none
  createdAt             := now

-- `idx_trigger_identity_cron`, `idx_trigger_identity_idempotency` and the unique target.
def TriggerIdentity.Conflicts (t₁ t₂ : TriggerIdentity) : Bool :=
  (t₁.triggerKind = .cron && t₂.triggerKind = .cron && t₁.scheduleId = t₂.scheduleId &&
    t₁.scheduledAt = t₂.scheduledAt) ||
  (t₁.idempotencyKey.isSome && t₁.idempotencyKey = t₂.idempotencyKey &&
    t₁.scheduleId = t₂.scheduleId) ||
  t₁.target = t₂.target

-- `idx_runs_cron_occurrence`, `idx_runs_webhook_idempotency` and `idx_runs_batch_item`.
def Run.Conflicts (r₁ r₂ : Run) : Bool :=
  (r₁.triggerKind = .cron && r₂.triggerKind = .cron && r₁.scheduleId = r₂.scheduleId &&
    r₁.scheduledAt = r₂.scheduledAt) ||
  (r₁.idempotencyKey.isSome && r₁.idempotencyKey = r₂.idempotencyKey &&
    r₁.scheduleId = r₂.scheduleId) ||
  (r₁.batchItemId.isSome && r₁.batchItemId = r₂.batchItemId)

inductive CronOccurrenceResult
  | applied (run : Run)
  | staleSchedule

namespace Store

variable (s : Store)

def insertTriggerIdentity (t : TriggerIdentity) : Except StoreError Store :=
  if s.triggerIdentities.rows.any (t.Conflicts ·) then
    .error .uniqueViolation
  else
    match s.triggerIdentities.insert t with
    | none                   => .error .uniqueViolation
    | some triggerIdentities =>
      if (s.schedules.get? t.scheduleId).isSome then .ok { s with triggerIdentities }
      else .error .foreignKeyViolation

def insertRun (r : Run) : Except StoreError Store :=
  if s.runs.rows.any (r.Conflicts ·) then
    .error .uniqueViolation
  else
    match s.runs.insert r with
    | none      => .error .uniqueViolation
    | some runs =>
      if (s.schedules.get? r.scheduleId).isSome then .ok { s with runs }
      else .error .foreignKeyViolation

def triggerTargetForCron (scheduleId : Uuid) (scheduledAt : Time) : Option TriggerTarget :=
  s.triggerIdentities.rows.find? (fun t =>
    t.scheduleId = scheduleId && t.triggerKind = .cron && t.scheduledAt = scheduledAt) |>.map (·.target)

def triggerTargetForIdempotency (scheduleId : Uuid) (key : String) : Option TriggerTarget :=
  s.triggerIdentities.rows.find? (fun t =>
    t.scheduleId = scheduleId && t.idempotencyKey = some key) |>.map (·.target)

def getRunByIdempotency (scheduleId : Uuid) (key : String) : Option Run :=
  s.runs.rows.find? fun r => r.scheduleId = scheduleId && r.idempotencyKey = some key

def findExistingRun (scheduleId : Uuid) (scheduledAt : Time) (trigger : TriggerKind) : Option Run :=
  s.runs.rows.find? fun r =>
    r.scheduleId = scheduleId && r.scheduledAt = scheduledAt && r.triggerKind = trigger

-- What `create_run` answers after its trigger identity turned out to be taken. The transaction has
-- been rolled back by then.
def existingTarget (new : NewRun) : Transaction Run :=
  let target : Option TriggerTarget :=
    match new.idempotencyKey with
    | some key => s.triggerTargetForIdempotency new.scheduleId key
    | none     =>
      if new.triggerKind = .cron then s.triggerTargetForCron new.scheduleId new.scheduledAt else none
  match target with
  | none            => .bail "trigger identity conflict has no target"
  | some (.batch _) => .bail "trigger was already materialized as a collection batch"
  | some (.run id)  =>
    match s.runs.get? id with
    | none     => .bail "trigger identity points to a missing run"
    | some run => .commit run s

-- What `create_run` answers after the run itself turned out to be taken.
def existingRun (new : NewRun) : Transaction Run :=
  match new.idempotencyKey.bind (s.getRunByIdempotency new.scheduleId) with
  | some run => .commit run s
  | none     =>
    match s.findExistingRun new.scheduleId new.scheduledAt new.triggerKind with
    | some run => .commit run s
    | none     => .error .uniqueViolation

def createRun (new : NewRun) (triggerId : Uuid) (now : Time) : Transaction Run :=
  let trigger : TriggerIdentity := {
    id             := triggerId
    scheduleId     := new.scheduleId
    triggerKind    := new.triggerKind
    scheduledAt    := new.scheduledAt
    idempotencyKey := new.idempotencyKey
    target         := .run new.id
    createdAt      := now
  }
  match s.insertTriggerIdentity trigger with
  | .error .uniqueViolation => s.existingTarget new
  | .error e                => .error e
  | .ok s₁                  =>
    match s₁.insertRun (new.row now) with
    | .error .uniqueViolation => s.existingRun new
    | .error e                => .error e
    | .ok s₂                  => .commit (new.row now) <| s₂.appendAudit (.run new.id) .runQueued

def createCronOccurrence (new : NewRun) (expectedRevision : Int) (expectedCron : CronSpec)
    (triggerId : Uuid) (now : Time) : Transaction CronOccurrenceResult :=
  if new.triggerKind ≠ .cron then
    .bail "cron occurrence must use the cron trigger kind"
  else
    match s.fence new.scheduleId expectedRevision expectedCron new.scheduledAt with
    | none    => .commit .staleSchedule s
    | some s₁ =>
      let trigger : TriggerIdentity := {
        id             := triggerId
        scheduleId     := new.scheduleId
        triggerKind    := .cron
        scheduledAt    := new.scheduledAt
        idempotencyKey := none
        target         := .run new.id
        createdAt      := now
      }
      match s₁.insertTriggerIdentity trigger with
      | .error .uniqueViolation =>
        -- The fence is rolled back together with the insert.
        match s.triggerTargetForCron new.scheduleId new.scheduledAt with
        | none            => .bail "cron trigger identity exists without a target"
        | some (.batch _) => .bail "cron occurrence was already materialized as a collection batch"
        | some (.run id)  =>
          match s.runs.get? id with
          | none     => .bail "cron trigger points to a missing run"
          | some run => .commit (.applied run) s
      | .error e => .error e
      | .ok s₂   =>
        match s₂.insertRun (new.row now) with
        | .error .uniqueViolation =>
          -- Only this branch keeps the fence and the trigger identity without a run of its own.
          match s₂.findExistingRun new.scheduleId new.scheduledAt .cron with
          | none     => .bail "no rows returned by a query that expected to return at least one row"
          | some run => .commit (.applied run) s₂
        | .error e => .error e
        | .ok s₃   => .commit (.applied (new.row now)) <| s₃.appendAudit (.run new.id) .runQueued

end Store

end Scheduler
