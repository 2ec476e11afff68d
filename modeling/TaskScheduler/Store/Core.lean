import TaskScheduler.Store.Operations

namespace Scheduler

-- A run as `INSERT INTO runs` leaves it.
structure Run.Fresh (run : Run) : Prop where
  state  : run.state = .queued
  count  : run.attemptCount = 0
  offset : run.attemptOffset = 0

-- The batch and the item that a run was materialized from.
def Run.link (run : Run) : Option (Uuid × Uuid) :=
  match run.batchId, run.batchItemId with
  | some batchId, some itemId => some (batchId, itemId)
  | _, _                      => none

def BatchState.isIngesting : BatchState → Bool
  | scheduled | collecting => true
  | _                      => false

-- The tables in which runs, their attempts and their batches live. What a transaction does to the
-- other tables never flows back into these, except for a confirmed poisoned input.
@[ext]
structure Core where
  runs       : Table Run
  attempts   : Table Attempt
  batches    : Table Batch
  batchItems : Table BatchItem

def Store.core (s : Store) : Core where
  runs       := s.runs
  attempts   := s.attempts
  batches    := s.batches
  batchItems := s.batchItems

namespace Store

variable {s : Store}

@[simp]
theorem core_runs : s.core.runs = s.runs := rfl

@[simp]
theorem core_attempts : s.core.attempts = s.attempts := rfl

@[simp]
theorem core_batches : s.core.batches = s.batches := rfl

@[simp]
theorem core_batchItems : s.core.batchItems = s.batchItems := rfl

end Store

namespace Core

variable (c : Core)

def attemptsOf (runId : Uuid) : List Attempt :=
  c.attempts.select (·.runId = runId)

@[simp]
theorem attemptsOf_core {s : Store} {runId : Uuid} : s.core.attemptsOf runId = s.attemptsOf runId :=
  rfl

def acceptedCount (runId : Uuid) : Nat :=
  c.attemptsOf runId |>.countP (·.acceptedAt.isSome)

def maxAttemptNumber (runId : Uuid) : Nat :=
  c.attemptsOf runId |>.map (·.attemptNumber) |>.foldl max 0

def childRuns (batchId : Uuid) : List Run :=
  c.runs.select (·.batchId = some batchId)

-- The state of batch `b` once it is told that one of its runs is in state `st`.
def settled (b : Batch) (st : RunState) : BatchState :=
  let children := c.childRuns b.id
  if st.isTerminal then
    if b.state = .running && children ≠ [] && children.all (·.state.isTerminal) then
      b.completion children
    else
      b.state
  else
    if b.state.isCompleted then .running else b.state

def setAttempt (id : Uuid) (f : Attempt → Attempt)
    (hf : ∀ a, Keyed.key (f a) = Keyed.key a := by exact Keyed.keeps fun _ => rfl) : Core :=
  { c with attempts := c.attempts.update (·.id = id) f hf }

-- Changes a run if its state allows it.
def setRun (id : Uuid) (allows : RunState → Bool) (f : Run → Run)
    (hf : ∀ r, Keyed.key (f r) = Keyed.key r := by exact Keyed.keeps fun _ => rfl) : Core :=
  { c with runs := c.runs.update (fun r => r.id = id && allows r.state) f hf }

def sync (runId : Uuid) (st : RunState) : Core :=
  match (c.runs.get? runId).bind Run.link with
  | none                   => c
  | some (batchId, itemId) => { c with
      batches    := c.batches.update (·.id = batchId) fun b => b.withState (c.settled b st)
      batchItems := c.batchItems.update (fun i => i.id = itemId && i.batchId = batchId) fun i =>
        { i with state := st.itemState }
    }

-- A ready item was given the run `runId`.
def queueItem (itemId runId : Uuid) : Core :=
  { c with
    batchItems := c.batchItems.update (fun i => i.id = itemId && i.state = .ready)
      ({ · with state := .queued, runId := some runId }) (BatchItem.keeps_queued runId)
  }

def closeIngestion (batchId : Uuid) (state : BatchState) (now : Time) : Core :=
  { c with
    batches := c.batches.update (fun b => b.id = batchId && b.state = .collecting) fun b =>
      { b with
        state
        leaseOwner     := none
        leaseToken     := none
        leaseExpiresAt := none
        finalizedAt    := some now
      }
  }

def cancelBatch (batchId : Uuid) : Core where
  runs       := c.runs.update (fun r => r.batchId = some batchId && r.state.isActive)
    ({ · with state := .cancelled }) (Run.keeps_state .cancelled)
  attempts   := c.attempts
  batches    := c.batches.update (fun b => b.id = batchId && b.state.isOpen)
    (fun b => { b with
      state          := .cancelled
      leaseOwner     := none
      leaseToken     := none
      leaseExpiresAt := none
    })
    Batch.keeps_cancelled
  batchItems := c.batchItems.update (fun i => i.batchId = batchId && i.state.isOpen)
    ({ · with state := .cancelled }) (BatchItem.keeps_state .cancelled)

section Poison

variable (poisoned : Uuid → Bool)

-- The items of poisoned runs that are not yet marked.
def poisonedItems : List BatchItem :=
  c.batchItems.select fun i => i.runId.any poisoned && i.state.isPoisonable

def failPoisoned : Core :=
  { c with
    runs       := c.runs.update (fun r => r.state = .queued && poisoned r.id)
      ({ · with state := .failed }) (Run.keeps_state .failed)
    batchItems := c.batchItems.update (fun i => i.runId.any poisoned && i.state.isPoisonable)
      ({ · with state := .poisoned, failureCode := some "collection_input_poisoned" })
      BatchItem.keeps_poisoned
  }

-- The state of batch `b` once some of its items were poisoned.
def drained (b : Batch) : BatchState :=
  if b.state = .running && (c.childRuns b.id).all (·.state.isTerminal) then .completedWithErrors
  else b.state

def poison : Core :=
  let hits := c.poisonedItems poisoned
  let c₁ := c.failPoisoned poisoned
  { c₁ with
    batches := c₁.batches.update (·.id ∈ (hits.map (·.batchId)).dedup) fun b =>
      { b with
        poisonedItemCount := b.poisonedItemCount + hits.countP (·.batchId = b.id)
        state             := c₁.drained b
      }
  }

end Poison

end Core

namespace Core

-- What a page does to the items of its batch: new ones are added and duplicates become invalid.
inductive Collects (batchId : Uuid) : Table BatchItem → Table BatchItem → Prop
  | refl : Collects batchId items items
  | add (hb : item.batchId = batchId) (hr : item.runId = none) (hs : !item.state.isExecution)
      (hi : items.insert item = some items₁) (h : Collects batchId items₁ items₂) :
      Collects batchId items items₂
  | invalidate (hm : item ∈ items) (hb : item.batchId = batchId) (hs : !item.state.isExecution)
      (h : Collects batchId (items.update (·.id = item.id) ({ · with
        state := .invalid, failureCode := some "collection_duplicate_key" })) items₂) :
      Collects batchId items items₂

-- The runs that a finalized batch is given, one for each of its ready items.
inductive Materializes (batch : Batch) : List BatchItem → Core → Core → Prop
  | nil  : Materializes batch [] c c
  | cons {runs : Table Run} (hf : run.Fresh) (hb : run.batchId = some batch.id)
      (hi : run.batchItemId = some item.id)
      (h₁ : c.runs.insert run = some runs)
      (h₂ : Materializes batch items (Core.queueItem { c with runs } item.id run.id) c') :
      Materializes batch (item :: items) c c'

-- A result for an attempt that may still have one: it is only recorded if the run was cancelled.
inductive Concludes (c : Core) (a : Attempt) (outcome : ExecutionOutcome) (p : AttemptState → Prop) :
    Core → Prop
  | late (ha : c.attempts.get? a.id = some a) (hp : p a.state)
      (hr : c.runs.get? a.runId = some run) (hs : run.state = .cancelled) :
      Concludes c a outcome p <|
        c.setAttempt a.id (Attempt.recordResult · .lateResult result encrypted)
  | applied (ha : c.attempts.get? a.id = some a) (hp : p a.state)
      (hr : c.runs.get? a.runId = some run) (hs : run.state ≠ .cancelled) :
      Concludes c a outcome p <|
        c.setAttempt a.id (Attempt.recordResult · .finished result encrypted)
          |>.setRun run.id (fun _ => true) ({ · with state := run.stateAfter outcome, notBefore })
          |>.sync run.id (run.stateAfter outcome)

-- What an operation can do to the core, and what it adds to the history.
inductive Step (c : Core) : Op → List LogEntry → Core → Prop
  | unchanged : Step c op [] c
  | queueRun {runs : Table Run} (hf : run.Fresh) (hb : run.batchId = none)
      (hi : run.batchItemId = none) (h : c.runs.insert run = some runs) : Step c op [] { c with runs }
  | openBatch {batches : Table Batch} (hs : batch.state = .scheduled)
      (hf : batch.finalizedAt = none) (h : c.batches.insert batch = some batches) :
      Step c op [] { c with batches }
  | ingest (p : Batch → Bool) (f : Batch → Batch) (hf : ∀ b, Keyed.key (f b) = Keyed.key b)
      (h : ∀ b, p b → b.state.isIngesting ∧ (f b).finalizedAt = b.finalizedAt ∧
        ((f b).state = .collecting ∨ (f b).state = .failed)) :
      Step c op [] { c with batches := c.batches.update p f hf }
  | collect {batchItems : Table BatchItem} (f : Batch → Batch)
      (hf : ∀ b, Keyed.key (f b) = Keyed.key b)
      (h : ∀ b, (f b).state = b.state ∧ (f b).finalizedAt = b.finalizedAt)
      (hb : c.batches.get? batchId = some batch) (hs : batch.state = .collecting)
      (hi : Collects batchId c.batchItems batchItems) :
      Step c op [] { c with batches := c.batches.update (·.id = batchId) f hf, batchItems }
  | finalize (hq : state = .completedWithErrors → 0 < batch.quarantined)
      (hb : c.batches.get? batch.id = some batch) (hs : batch.state = .collecting)
      (hn : (items.map BatchItem.id).Nodup)
      (hi : ∀ i, i ∈ items ↔ i ∈ c.batchItems ∧ i.batchId = batch.id ∧ i.state = .ready)
      (h : Materializes batch items c c₁)
      (ht : items ≠ [] ∧ state = .running ∨ items = [] ∧ state.isCompleted) :
      Step c op [] (c₁.closeIngestion batch.id state now)
  | cancelBatch (hb : c.batches.get? batchId = some batch) (ho : batch.state.isOpen) :
      Step c (.cancelBatch batchId now) [] (c.cancelBatch batchId)
  | offer {attempts : Table Attempt} (hr : c.runs.get? a.runId = some run)
      (hq : run.state = .queued) (hs : a.state = .offered) (ha : a.acceptedAt = none)
      (hn : a.attemptNumber = c.maxAttemptNumber a.runId + 1)
      (hi : c.attempts.insert a = some attempts) :
      Step c (.createAttempt a.runId agentId lease a.id token now) [] <|
        Core.setRun { c with attempts } a.runId (· = .queued) ({ · with state := .running })
          |>.sync a.runId .running
  | release {id : Uuid} (ha : c.attempts.get? id = some a) (ho : a.state = .offered) :
      Step c (.releaseOffer id) [] <|
        c.setAttempt id ({ · with state := .offerFailed })
          |>.setRun a.runId (· = .running) ({ · with state := .queued })
          |>.sync a.runId .queued
  | reject {id : Uuid} (ha : c.attempts.get? id = some a) (ho : a.state = .offered)
      (ht : a.leaseToken = token) :
      Step c (.rejectOffer id token result encrypted now) [] <|
        c.setAttempt id (Attempt.reject · result encrypted now)
          |>.setRun a.runId (· = .running) ({ · with state := .queued, notBefore := now })
          |>.sync a.runId .queued
  | accept {id : Uuid} (ha : c.attempts.get? id = some a) (hs : a.state.isLeased)
      (ht : a.leaseToken = token) (hc : c₁ = c.setAttempt id (Attempt.accept · lease now)) :
      Step c (.acceptAttempt id token lease now) [.accepted id a.runId] <|
        c₁.setRun a.runId (fun _ => true) fun r =>
          { r with attemptCount := c₁.acceptedCount a.runId - r.attemptOffset }
  | renew (p : Attempt → Bool) (hp : ∀ a ∈ c.attempts, p a → a.state = .accepted) (lease : Time) :
      Step c op [] { c with attempts := c.attempts.update p ({ · with leaseExpiresAt := lease }) }
  | expire {id : Uuid} (ha : c.attempts.get? id = some a) (hs : a.state.isLeased) :
      Step c (.claimExpiredAttempt id grace now) [] (c.setAttempt id ({ · with state := .expiring }))
  | finish (h : Concludes c a result.outcome
        (fun st => st ≠ .expiring ∧ st ≠ .finished ∧ st ≠ .lateResult) c') :
      Step c (.finishAttempt a.id token result encrypted random now) [.executed a.id a.runId] c'
  | finishExpired (h : Concludes c a result.outcome (· = .expiring) c') :
      Step c (.finishExpiredAttempt a.id token result encrypted random now) [] c'
  | cancelRun (hr : c.runs.get? runId = some run) (hs : run.state.isActive) :
      Step c (.cancelRun runId now) [] <|
        c.setRun runId RunState.isActive ({ · with state := .cancelled }) |>.sync runId .cancelled
  | retryRun (hr : c.runs.get? runId = some run) (hs : run.state = .failed) :
      Step c (.retryRun runId now) [.retried runId] <|
        c.setRun runId (· = .failed) ({ · with
            state         := .queued
            attemptCount  := 0
            attemptOffset := c.acceptedCount runId
            notBefore     := now
          })
          |>.sync runId .queued
  | poison (poisoned : Uuid → Bool) :
      Step c (.recordHealthEvidence evidence nodes evidenceId order now) [] (c.poison poisoned)

end Core

end Scheduler
