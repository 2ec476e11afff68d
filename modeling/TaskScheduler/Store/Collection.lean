import TaskScheduler.Store.Triggers
import TaskScheduler.Store.Rollups

namespace Scheduler

structure NewBatch where
  id                  : Uuid
  scheduleId          : Uuid
  scheduleRevision    : Int
  triggerKind         : TriggerKind
  scheduledAt         : Time
  idempotencyKey      : Option String
  encryptedSnapshot   : Blob
  encryptedOverrides  : Option Blob
  snapshotDigest      : String
  pageSize            : Nat
  maxItems            : Nat
  maxActiveRuns       : Nat
  poisonDistinctNodes : Nat

def startCursorDigest : String :=
  "start"

def NewBatch.row (new : NewBatch) (triggerId : Uuid) (now : Time) : Batch where
  id                       := new.id
  triggerIdentityId        := triggerId
  scheduleId               := new.scheduleId
  scheduleRevision         := new.scheduleRevision
  state                    := .scheduled
  triggerKind              := new.triggerKind
  scheduledAt              := new.scheduledAt
  encryptedSnapshot        := new.encryptedSnapshot
  encryptedOverrides       := new.encryptedOverrides
  snapshotDigest           := new.snapshotDigest
  pageSize                 := new.pageSize
  maxItems                 := new.maxItems
  maxActiveRuns            := new.maxActiveRuns
  poisonDistinctNodes      := new.poisonDistinctNodes
  collectionSnapshot       := none
  collectionSnapshotDigest := none
  nextCursor               := none
  nextCursorDigest         := startCursorDigest
  cursorGeneration         := 0
  ingestionComplete        := false
  itemCount                := 0
  validItemCount           := 0
  invalidItemCount         := 0
  poisonedItemCount        := 0
  heldItemCount            := 0
  leaseOwner               := none
  leaseToken               := none
  leaseExpiresAt           := none
  failureCode              := none
  finalizedAt              := none
  createdAt                := now

def validateBatchLimits (new : NewBatch) : Option String :=
  if ¬(1 ≤ new.pageSize ∧ new.pageSize ≤ 1000) then
    some "batch page_size must be between 1 and 1000"
  else if ¬(1 ≤ new.maxItems ∧ new.maxItems ≤ 10000) then
    some "batch max_items must be between 1 and 10000"
  else if ¬(1 ≤ new.maxActiveRuns ∧ new.maxActiveRuns ≤ 1000) then
    some "batch max_active_runs must be between 1 and 1000"
  else if ¬(2 ≤ new.poisonDistinctNodes ∧ new.poisonDistinctNodes ≤ 32) then
    some "batch poison_distinct_nodes must be between 2 and 32"
  else
    none

inductive CronBatchOccurrenceResult
  | applied (batch : Batch)
  | staleSchedule

namespace Store

variable (s : Store)

section Create

def insertBatch (new : NewBatch) (triggerId : Uuid) (now : Time) : Except StoreError Store :=
  if s.batches.rows.any (·.triggerIdentityId = triggerId) then
    .error .uniqueViolation
  else
    match s.batches.insert (new.row triggerId now) with
    | none         => .error .uniqueViolation
    | some batches => .ok { s with batches }

def findBatchForTrigger (scheduleId : Uuid) (scheduledAt : Time) (triggerKind : TriggerKind)
    (idempotencyKey : Option String) : Option Batch :=
  let matching (t : TriggerIdentity) : Bool :=
    match idempotencyKey with
    | some key => t.scheduleId = scheduleId && t.idempotencyKey = some key
    | none     => t.scheduleId = scheduleId && t.scheduledAt = scheduledAt && t.triggerKind = triggerKind
  s.triggerIdentities.select matching |>.findSome? fun t =>
    match t.target with
    | .batch id => s.batches.get? id
    | .run _    => none

def createCronBatch (new : NewBatch) (expectedRevision : Int) (expectedCron : CronSpec)
    (triggerId : Uuid) (now : Time) : Transaction CronBatchOccurrenceResult :=
  if new.triggerKind ≠ .cron then
    .bail "cron batch occurrence must use the cron trigger kind"
  else if new.scheduleRevision ≠ expectedRevision then
    .bail "cron batch snapshot revision does not match the fenced schedule revision"
  else
    match validateBatchLimits new with
    | some message => .bail message
    | none         =>
      match s.fence new.scheduleId expectedRevision expectedCron new.scheduledAt with
      | none    => .commit .staleSchedule s
      | some s₁ =>
        let trigger : TriggerIdentity := {
          id             := triggerId
          scheduleId     := new.scheduleId
          triggerKind    := .cron
          scheduledAt    := new.scheduledAt
          idempotencyKey := none
          target         := .batch new.id
          createdAt      := now
        }
        match s₁.insertTriggerIdentity trigger with
        | .error .uniqueViolation =>
          match s.findBatchForTrigger new.scheduleId new.scheduledAt .cron none with
          | some batch => .commit (.applied batch) s
          | none       => .bail "cron occurrence was already materialized as a non-collection run"
        | .error e => .error e
        | .ok s₂   =>
          match s₂.insertBatch new triggerId now with
          | .error e => .error e
          | .ok s₃   =>
            .commit (.applied (new.row triggerId now)) <|
              s₃.appendAudit (.batch new.id) .batchScheduled

def createBatch (new : NewBatch) (triggerId : Uuid) (now : Time) : Transaction Batch :=
  match validateBatchLimits new with
  | some message => .bail message
  | none         =>
    match s.schedules.get? new.scheduleId with
    | none          => .bail "schedule not found"
    | some schedule =>
      if schedule.revision ≠ new.scheduleRevision then
        .bail "schedule revision changed before batch creation"
      else
        let trigger : TriggerIdentity := {
          id             := triggerId
          scheduleId     := new.scheduleId
          triggerKind    := new.triggerKind
          scheduledAt    := new.scheduledAt
          idempotencyKey := new.idempotencyKey
          target         := .batch new.id
          createdAt      := now
        }
        match s.insertTriggerIdentity trigger with
        | .error .uniqueViolation =>
          match s.findBatchForTrigger new.scheduleId new.scheduledAt new.triggerKind
            new.idempotencyKey with
          | some batch => .commit batch s
          | none       => .bail "trigger was already materialized as a non-collection run"
        | .error e => .error e
        | .ok s₁   =>
          match s₁.insertBatch new triggerId now with
          | .error e => .error e
          | .ok s₂   =>
            .commit (new.row triggerId now) <| s₂.appendAudit (.batch new.id) .batchScheduled

def retriggerBatchSnapshot (sourceBatchId newBatchId : Uuid) (scheduledAt : Time)
    (triggerId : Uuid) (now : Time) : Transaction Batch :=
  match s.batches.get? sourceBatchId with
  | none        => .bail "source batch not found"
  | some source =>
    let new : NewBatch := {
      id                  := newBatchId
      scheduleId          := source.scheduleId
      scheduleRevision    := source.scheduleRevision
      triggerKind         := .retrigger
      scheduledAt
      idempotencyKey      := none
      encryptedSnapshot   := source.encryptedSnapshot
      encryptedOverrides  := source.encryptedOverrides
      snapshotDigest      := source.snapshotDigest
      pageSize            := source.pageSize
      maxItems            := source.maxItems
      maxActiveRuns       := source.maxActiveRuns
      poisonDistinctNodes := source.poisonDistinctNodes
    }
    match validateBatchLimits new with
    | some message => .bail message
    | none         =>
      let trigger : TriggerIdentity := {
        id             := triggerId
        scheduleId     := new.scheduleId
        triggerKind    := .retrigger
        scheduledAt
        idempotencyKey := none
        target         := .batch newBatchId
        createdAt      := now
      }
      match s.insertTriggerIdentity trigger with
      | .error e => .error e
      | .ok s₁   =>
        match s₁.insertBatch new triggerId now with
        | .error e => .error e
        | .ok s₂   =>
          .commit (new.row triggerId now) <| s₂.appendAudit (.batch newBatchId) .batchRetriggered

end Create

end Store

def validateFailureCode (code : String) : Option String :=
  if code = "" || 64 < code.utf8ByteSize ||
    !code.toList.all fun c => c.isLower || c.isDigit || c = '_' then
    some "failure code must contain 1-64 lowercase ASCII letters, digits, or underscores"
  else
    none

structure NewBatchItem where
  id                    : Uuid
  itemIndex             : Nat
  providerKeyHmac       : String
  encryptedSnapshot     : Option (Sealed ExecutionSnapshot)
  parametersDigest      : String
  state                 : BatchItemState
  failureCode           : Option String
  maxAttempts           : Option Nat
  initialBackoffSeconds : Option Nat
  backoffCapSeconds     : Option Nat

structure CommitCollectionPage where
  batchId                  : Uuid
  leaseToken               : String
  expectedGeneration       : Nat
  requestCursorDigest      : String
  pageDigest               : String
  collectionSnapshot       : Blob
  collectionSnapshotDigest : String
  nextCursor               : Option Blob
  nextCursorDigest         : String
  isFinal                  : Bool
  items                    : List NewBatchItem

inductive CommitPageOutcome
  | applied
  | replayed
  | stale
  deriving DecidableEq, Repr

def BatchItemState.isExecution : BatchItemState → Bool
  | queued | running | succeeded | failed | cancelled    => true
  | ready | invalid | suspectedPoison | poisoned | held  => false

def validateItems (indexes : List Nat) : List NewBatchItem → Option String
  | []         => none
  | item :: tl =>
    if isBlank item.providerKeyHmac || isBlank item.parametersDigest then
      some "batch item digests must not be empty"
    else if item.itemIndex ∈ indexes then
      some "collection page contains duplicate item indexes"
    else if item.state.isExecution then
      some "collection page contains an item in an execution state"
    else
      validateItems (item.itemIndex :: indexes) tl

def validatePage (page : CommitCollectionPage) : Option String :=
  if isBlank page.requestCursorDigest || isBlank page.pageDigest ||
    isBlank page.collectionSnapshotDigest || isBlank page.nextCursorDigest then
    some "collection page digests must not be empty"
  else if page.expectedGeneration = 0 && page.requestCursorDigest ≠ startCursorDigest then
    some "the first collection page must use the start cursor digest"
  else if page.isFinal && page.nextCursor.isSome then
    some "a final collection page cannot carry a next cursor"
  else if !page.isFinal && page.nextCursor.isNone then
    some "a non-final collection page must carry an encrypted next cursor"
  else
    validateItems [] page.items

structure PageCounts where
  total    : Int := 0
  ready    : Int := 0
  invalid  : Int := 0
  poisoned : Int := 0
  held     : Int := 0
  deriving DecidableEq, Repr

namespace PageCounts

-- `none` is the `unreachable!` arm.
def observe (counts : PageCounts) (state : BatchItemState) : Option PageCounts :=
  let counts := { counts with total := counts.total + 1 }
  match state with
  | .ready                       => some { counts with ready := counts.ready + 1 }
  | .invalid                     => some { counts with invalid := counts.invalid + 1 }
  | .poisoned | .suspectedPoison => some { counts with poisoned := counts.poisoned + 1 }
  | .held                        => some { counts with held := counts.held + 1 }
  | _                            => none

def reclassifyAsInvalid (counts : PageCounts) (state : BatchItemState) : Option PageCounts :=
  let invalid := counts.invalid + 1
  match state with
  | .ready                       => some { counts with ready := counts.ready - 1, invalid }
  | .invalid                     => some counts
  | .poisoned | .suspectedPoison => some { counts with poisoned := counts.poisoned - 1, invalid }
  | .held                        => some { counts with held := counts.held - 1, invalid }
  | _                            => none

end PageCounts

namespace Store

variable (s : Store)

-- One row of `claim_collection_batches`. The compare-and-swap only succeeds while the state and the
-- lease are the ones that made the row eligible, so selection and claim act as one step.
def claimCollectionBatch (batchId : Uuid) (owner : String) (leaseSeconds : Nat) (token : String)
    (now : Time) : Transaction (Option Batch) :=
  if isBlank owner then
    .bail "collection lease owner must not be empty"
  else
    let eligible (b : Batch) : Bool :=
      b.id = batchId &&
        (b.state = .scheduled || (b.state = .collecting && b.leaseExpiresAt.any (· < now)))
    let batches := s.batches.update eligible fun b =>
      { b with
        state          := .collecting
        leaseOwner     := some owner
        leaseToken     := some token
        leaseExpiresAt := some <| now + .seconds (max leaseSeconds 1)
      }
    .commit (if s.batches.rows.any eligible then batches.get? batchId else none) { s with batches }

def renewCollectionLease (batchId : Uuid) (leaseToken : String) (leaseSeconds : Nat) (now : Time) :
    Transaction Bool :=
  let live (b : Batch) : Bool :=
    b.id = batchId && b.state = .collecting && b.leaseToken = some leaseToken &&
      b.leaseExpiresAt.any (now < ·)
  let batches := s.batches.update live fun b =>
    { b with leaseExpiresAt := some <| now + .seconds (max leaseSeconds 1) }
  .commit (s.batches.rows.any live) { s with batches }

-- `ORDER BY item_index`
def itemsInOrder (p : BatchItem → Bool) : List BatchItem :=
  s.batchItems.select p |>.insertionSort (·.itemIndex ≤ ·.itemIndex)

def insertBatchItem (batchId : Uuid) (item : NewBatchItem) (now : Time) : Except StoreError Store :=
  if item.state = .ready && (item.encryptedSnapshot.isNone || item.maxAttempts.isNone ||
    item.initialBackoffSeconds.isNone || item.backoffCapSeconds.isNone) then
    .error <| .bail "ready batch item must include an execution snapshot and retry policy"
  else if item.state ≠ .ready && item.failureCode.isNone then
    .error <| .bail "quarantined batch item must include a safe failure code"
  else
    match item.failureCode.bind validateFailureCode with
    | some message => .error <| .bail message
    | none         =>
      if s.batchItems.rows.any fun i => i.batchId = batchId && i.itemIndex = item.itemIndex then
        .error .uniqueViolation
      else
        let row : BatchItem := {
          id                    := item.id
          batchId
          itemIndex             := item.itemIndex
          providerKeyHmac       := item.providerKeyHmac
          encryptedSnapshot     := item.encryptedSnapshot
          parametersDigest      := item.parametersDigest
          maxAttempts           := item.maxAttempts
          initialBackoffSeconds := item.initialBackoffSeconds
          backoffCapSeconds     := item.backoffCapSeconds
          state                 := item.state
          failureCode           := item.failureCode
          runId                 := none
          createdAt             := now
        }
        match s.batchItems.insert row with
        | none            => .error .uniqueViolation
        | some batchItems => .ok { s with batchItems }

-- The duplicate check of one item: an earlier item with the same provider key makes both invalid.
def admitItem (batchId : Uuid) (counts : PageCounts) (item : NewBatchItem) :
    Except StoreError (Store × PageCounts × NewBatchItem) :=
  let sameKey (i : BatchItem) : Bool := i.batchId = batchId && i.providerKeyHmac = item.providerKeyHmac
  match s.itemsInOrder sameKey |>.head? with
  | none           => .ok (s, counts, item)
  | some duplicate =>
    if duplicate.parametersDigest ≠ item.parametersDigest then
      .error <| .bail "collection_conflicting_duplicate_key"
    else
      let code := some "collection_duplicate_key"
      let item := { item with state := .invalid, failureCode := code }
      if duplicate.state = .invalid then
        .ok (s, counts, item)
      else
        match counts.reclassifyAsInvalid duplicate.state with
        | none        => .error .panicked
        | some counts =>
          let batchItems := s.batchItems.update (·.id = duplicate.id) fun i =>
            { i with state := .invalid, failureCode := code }
          .ok ({ s with batchItems }, counts, item)

def insertItems (batchId : Uuid) (now : Time) (counts : PageCounts) :
    Store → List NewBatchItem → Except StoreError (Store × PageCounts)
  | s, []         => .ok (s, counts)
  | s, item :: tl =>
    match s.admitItem batchId counts item with
    | .error e                 => .error e
    | .ok (s₁, counts₁, item₁) =>
      match counts₁.observe item₁.state with
      | none         => .error .panicked
      | some counts₂ =>
        match s₁.insertBatchItem batchId item₁ now with
        | .error e => .error e
        | .ok s₂   => insertItems batchId now counts₂ s₂ tl

def insertCollectionPage (page : CommitCollectionPage) (now : Time) : Except StoreError Store :=
  let row : CollectionPage := {
    batchId                  := page.batchId
    generation               := page.expectedGeneration
    requestCursorDigest      := page.requestCursorDigest
    pageDigest               := page.pageDigest
    collectionSnapshotDigest := page.collectionSnapshotDigest
    nextCursor               := page.nextCursor
    nextCursorDigest         := page.nextCursorDigest
    itemCount                := page.items.length
    isFinal                  := page.isFinal
    createdAt                := now
  }
  if s.batchCollectionPages.rows.any fun p =>
    p.batchId = page.batchId && p.requestCursorDigest = page.requestCursorDigest then
    .error .uniqueViolation
  else
    match s.batchCollectionPages.insert row with
    | none                      => .error .uniqueViolation
    | some batchCollectionPages => .ok { s with batchCollectionPages }

-- The cursor and the counters after a page; the row was checked in the same transaction.
def advanceCursor (page : CommitCollectionPage) (counts : PageCounts) : Store :=
  { s with
    batches := s.batches.update (·.id = page.batchId) fun b =>
      { b with
        collectionSnapshot       := b.collectionSnapshot <|> some page.collectionSnapshot
        collectionSnapshotDigest := b.collectionSnapshotDigest <|> some page.collectionSnapshotDigest
        nextCursor               := page.nextCursor
        nextCursorDigest         := page.nextCursorDigest
        cursorGeneration         := b.cursorGeneration + 1
        ingestionComplete        := page.isFinal
        itemCount                := b.itemCount + counts.total
        validItemCount           := b.validItemCount + counts.ready
        invalidItemCount         := b.invalidItemCount + counts.invalid
        poisonedItemCount        := b.poisonedItemCount + counts.poisoned
        heldItemCount            := b.heldItemCount + counts.held
      }
  }

def commitCollectionPage (page : CommitCollectionPage) (now : Time) :
    Transaction CommitPageOutcome :=
  match validatePage page with
  | some message => .bail message
  | none         =>
    match s.batches.get? page.batchId with
    | none       => .bail "batch not found"
    | some batch =>
      if batch.cursorGeneration ≠ page.expectedGeneration then
        let replay := s.batchCollectionPages.rows.find? fun p =>
          p.batchId = page.batchId && p.requestCursorDigest = page.requestCursorDigest
        .commit (if replay.any (·.pageDigest = page.pageDigest) then .replayed else .stale) s
      else if batch.state ≠ .collecting || batch.ingestionComplete ||
        batch.leaseToken ≠ some page.leaseToken || !batch.leaseExpiresAt.any (now < ·) then
        .commit .stale s
      else if batch.nextCursorDigest ≠ page.requestCursorDigest then
        .commit .stale s
      else if batch.collectionSnapshotDigest.any (· ≠ page.collectionSnapshotDigest) then
        .bail "collection snapshot changed while ingesting batch"
      else if batch.pageSize < page.items.length then
        .bail "parameter collection page exceeds configured page_size"
      else if batch.maxItems < batch.itemCount + page.items.length then
        .bail "parameter collection exceeds configured max_items"
      else
        match s.insertCollectionPage page now with
        | .error e => .error e
        | .ok s₁   =>
          match insertItems page.batchId now {} s₁ page.items with
          | .error e         => .error e
          | .ok (s₂, counts) =>
            .commit .applied <|
              (s₂.advanceCursor page counts).appendAudit (.batch page.batchId) .batchPageCommitted

end Store

end Scheduler
