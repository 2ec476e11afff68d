import TaskScheduler.Store.Collection

namespace Scheduler

inductive FinalizeBatchOutcome
  | finalized
  | alreadyFinalized
  deriving DecidableEq, Repr

-- The states from which `cancel_batch` moves a batch.
def BatchState.isOpen : BatchState → Bool
  | scheduled | collecting | running                     => true
  | succeeded | completedWithErrors | failed | cancelled => false

def BatchState.isCompleted : BatchState → Bool
  | succeeded | completedWithErrors                       => true
  | scheduled | collecting | running | failed | cancelled => false

def BatchItemState.isOpen : BatchItemState → Bool
  | ready | queued | running => true
  | _                        => false

namespace Batch

def withState (b : Batch) (state : BatchState) : Batch :=
  { b with state }

@[simp]
theorem withState_state {b : Batch} : b.withState b.state = b :=
  rfl

-- The items that never became runs.
def quarantined (b : Batch) : Int :=
  b.invalidItemCount + b.poisonedItemCount + b.heldItemCount

-- The state in which a batch ends whose children are all terminal.
def completion (b : Batch) (children : List Run) : BatchState :=
  if children.all (·.state = .succeeded) && b.quarantined = 0 then .succeeded
  else .completedWithErrors

end Batch

namespace Store

variable (s : Store)

def childRuns (batchId : Uuid) : List Run :=
  s.runs.select (·.batchId = some batchId)

-- The first half of `sync_batch_run_state_tx`: a child is active again.
def reopenBatch (batchId : Uuid) : Store :=
  let completed (b : Batch) : Bool := b.id = batchId && b.state.isCompleted
  if s.batches.rows.any completed then
    { s with
      batches := s.batches.update completed (·.withState .running)
    }.appendAudit (.batch batchId) .batchReopened
  else
    s

-- The second half: the last child became terminal.
def completeBatch (batchId : Uuid) : Store :=
  let children := s.childRuns batchId
  match s.batches.get? batchId with
  | none       => s
  | some batch =>
    if children ≠ [] && children.all (·.state.isTerminal) then
      let running (b : Batch) : Bool := b.id = batchId && b.state = .running
      if s.batches.rows.any running then
        { s with
          batches := s.batches.update running (·.withState <| batch.completion children)
        }.appendAudit (.batch batchId) .batchCompleted
      else
        s
    else
      s

def setItemState (batchId itemId : Uuid) (state : BatchItemState) : Store :=
  { s with
    batchItems := s.batchItems.update (fun i => i.id = itemId && i.batchId = batchId) fun i =>
      { i with state }
  }

-- The caller passes the state name; the run row is only read for its batch link.
def syncBatchRunState (runId : Uuid) (runState : RunState) : Store :=
  match s.runs.get? runId with
  | none     => s
  | some run =>
    match run.batchId, run.batchItemId with
    | some batchId, some itemId =>
      let s₁ := s.setItemState batchId itemId runState.itemState
      if runState.isTerminal then s₁.completeBatch batchId else s₁.reopenBatch batchId
    | _, _ => s

section

variable {s : Store}

theorem reopenBatch_eq (s : Store) (batchId : Uuid) :
    ∃ batches audit, s.reopenBatch batchId = { s with batches, auditEvents := audit } := by
  simp only [reopenBatch]
  split <;> exact ⟨_, _, rfl⟩

theorem completeBatch_eq (s : Store) (batchId : Uuid) :
    ∃ batches audit, s.completeBatch batchId = { s with batches, auditEvents := audit } := by
  simp only [completeBatch]
  repeat' split
  all_goals exact ⟨_, _, rfl⟩

-- Synchronizing a batch touches neither runs nor attempts.
theorem syncBatchRunState_eq (s : Store) (runId : Uuid) (st : RunState) :
    ∃ batches batchItems audit,
      s.syncBatchRunState runId st = { s with batches, batchItems, auditEvents := audit } := by
  simp only [syncBatchRunState]
  split
  case h_1 => exact ⟨_, _, _, rfl⟩
  case h_2 =>
    split
    case h_1 batchId itemId _ _ =>
      let s₁ := s.setItemState batchId itemId st.itemState
      obtain ⟨_, _, hc⟩ := completeBatch_eq s₁ batchId
      obtain ⟨_, _, hr⟩ := reopenBatch_eq s₁ batchId
      split
      case isTrue => exact ⟨_, _, _, hc⟩
      case isFalse => exact ⟨_, _, _, hr⟩
    case h_2 => exact ⟨_, _, _, rfl⟩

@[simp]
theorem syncBatchRunState_runs {runId st} : (s.syncBatchRunState runId st).runs = s.runs := by
  have ⟨_, _, _, h⟩ := s.syncBatchRunState_eq runId st
  rw [h]

@[simp]
theorem syncBatchRunState_attempts {runId st} :
    (s.syncBatchRunState runId st).attempts = s.attempts := by
  have ⟨_, _, _, h⟩ := s.syncBatchRunState_eq runId st
  rw [h]

end

-- One item of the materialization loop. `runId` is the identifier drawn for its run.
def materializeItem (batch : Batch) (item : BatchItem) (runId : Uuid) (now : Time) :
    Except StoreError Store :=
  match item.encryptedSnapshot, item.maxAttempts, item.initialBackoffSeconds,
    item.backoffCapSeconds with
  | some snapshot, some maxAttempts, some initialBackoffSeconds, some backoffCapSeconds =>
    let run : Run := {
      id                := runId
      scheduleId        := batch.scheduleId
      state             := .queued
      triggerKind       := .batchItem
      scheduledAt       := batch.scheduledAt
      notBefore         := batch.scheduledAt
      encryptedSnapshot := snapshot
      maxAttempts
      initialBackoffSeconds
      backoffCapSeconds
      attemptCount      := 0
      attemptOffset     := 0
      idempotencyKey    := none
      batchId           := some batch.id
      batchItemId       := some item.id
      createdAt         := now
    }
    match s.insertRun run with
    | .error e => .error e
    | .ok s₁   =>
      let batchItems := s₁.batchItems.update (fun i => i.id = item.id && i.state = .ready) fun i =>
        { i with state := .queued, runId := some runId }
      .ok { s₁.appendAudit (.run runId) .runQueued with batchItems }
  | _, _, _, _ =>
    .error <| .bail "ready batch item is missing its immutable execution snapshot or policy"

-- The loop reads the ready items by hundreds; materialized ones leave the selection, so together
-- the reads run through all ready items in order.
def materializeItems (batch : Batch) (newId : Uuid → Uuid) (now : Time) :
    Store → List BatchItem → Except StoreError Store
  | s, []         => .ok s
  | s, item :: tl =>
    match s.materializeItem batch item (newId item.id) now with
    | .error e => .error e
    | .ok s₁   => materializeItems batch newId now s₁ tl

def readyItems (batchId : Uuid) : List BatchItem :=
  s.itemsInOrder fun i => i.batchId = batchId && i.state = .ready

-- Closing the ingestion: `materialized` tells whether any run was created.
def closeIngestion (batch : Batch) (materialized : Bool) (now : Time) : Store :=
  let state : BatchState :=
    if materialized then .running
    else if 0 < batch.quarantined then .completedWithErrors
    else .succeeded
  { s with
    batches := s.batches.update (fun b => b.id = batch.id && b.state = .collecting) fun b =>
      { b with
        state
        leaseOwner     := none
        leaseToken     := none
        leaseExpiresAt := none
        finalizedAt    := some now
      }
  }

def finalizeBatch (batchId : Uuid) (leaseToken : String) (newId : Uuid → Uuid) (now : Time) :
    Transaction FinalizeBatchOutcome :=
  match s.batches.get? batchId with
  | none       => .bail "batch not found"
  | some batch =>
    match batch.state with
    | .running | .succeeded | .completedWithErrors | .failed | .cancelled =>
      .commit .alreadyFinalized s
    | .scheduled | .collecting =>
      if batch.state ≠ .collecting || !batch.ingestionComplete ||
        batch.leaseToken ≠ some leaseToken || !batch.leaseExpiresAt.any (now < ·) then
        .bail "batch is not ready for finalization or collection lease was lost"
      else
        let items := s.readyItems batchId
        match materializeItems batch newId now s items with
        | .error e => .error e
        | .ok s₁   =>
          .commit .finalized <|
            (s₁.closeIngestion batch (items ≠ []) now).appendAudit (.batch batchId) .batchFinalized

def failBatch (batchId : Uuid) (failureCode : String) : Transaction Bool :=
  match validateFailureCode failureCode with
  | some message => .bail message
  | none         =>
    let ingesting (b : Batch) : Bool :=
      b.id = batchId && (b.state = .scheduled || b.state = .collecting)
    if s.batches.rows.any ingesting then
      .commit true <|
        { s with
          batches := s.batches.update ingesting fun b =>
            { b with
              state          := .failed
              failureCode    := some failureCode
              leaseOwner     := none
              leaseToken     := none
              leaseExpiresAt := none
            }
        }.appendAudit (.batch batchId) .batchFailed
    else
      .commit false s

-- `SELECT schedule_id,COUNT(*) … GROUP BY schedule_id`
def countCancelled (runs : List Run) (now : Time) : Store :=
  (runs.map (·.scheduleId)).dedup.foldl countGroup s
where
  countGroup (s : Store) (scheduleId : Uuid) : Store :=
    s.incrementCancelledRollup scheduleId (runs.countP (·.scheduleId = scheduleId)) now

-- The accepted attempts of the given runs, to whose agents a cancellation is sent.
def acceptedAttempts (isCancelled : Uuid → Bool) : List (String × Uuid) :=
  s.attempts.select (fun a => isCancelled a.runId && a.state = .accepted) |>.map fun a => (a.agentId, a.id)

def cancelBatch (batchId : Uuid) (now : Time) : Transaction (List (String × Uuid)) :=
  if s.batches.rows.any fun b => b.id = batchId && b.state.isOpen then
    let batches := s.batches.update (fun b => b.id = batchId && b.state.isOpen) fun b =>
      { b with
        state          := .cancelled
        leaseOwner     := none
        leaseToken     := none
        leaseExpiresAt := none
      }
    let cancelled (r : Run) : Bool := r.batchId = some batchId && r.state.isActive
    let s₁ : Store := { s.countCancelled (s.runs.select cancelled) now with
      batches
      runs       := s.runs.update cancelled fun r => { r with state := .cancelled }
      batchItems := s.batchItems.update (fun i => i.batchId = batchId && i.state.isOpen) fun i =>
        { i with state := .cancelled }
    }
    let isChild (runId : Uuid) : Bool := (s₁.runs.get? runId).any (·.batchId = some batchId)
    .commit (s₁.acceptedAttempts isChild) <| s₁.appendAudit (.batch batchId) .batchCancelled
  else
    .bail "batch is already terminal or does not exist"

end Store

end Scheduler
