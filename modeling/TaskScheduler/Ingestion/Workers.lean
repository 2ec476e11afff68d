import TaskScheduler.Ingestion.Chain

namespace Scheduler

-- The errors with a code of their own that fetching and ingesting a page can end in.
inductive CollectionRuntimeError
  | invalidReference
  | unsupportedSource
  | sourceUnavailable
  | fileNotAllowed
  | sourceTooLarge
  | sourceTimeout
  | sourceTransport
  | sourceHttpStatus
  | sourceBodyFailed
  | connectorNotConfigured
  | connectorAuthRequired
  | connectorTimeout
  | connectorTransport
  | connectorHttpStatus
  | connectorInvalidContentType
  | connectorInvalidResponse
  | connectorVersionMismatch
  | documentInvalid
  | ndjsonLineInvalid
  | snapshotExpired
  | snapshotDrift
  | snapshotInvalid
  | cursorInvalid
  | cursorCycle
  | pageTooLarge
  | itemLimitExceeded
  deriving DecidableEq, Repr

def CollectionRuntimeError.code : CollectionRuntimeError → String
  | invalidReference            => "collection_invalid_reference"
  | unsupportedSource           => "collection_unsupported_source"
  | sourceUnavailable           => "collection_source_unavailable"
  | fileNotAllowed              => "collection_file_not_allowed"
  | sourceTooLarge              => "collection_source_too_large"
  | sourceTimeout               => "collection_source_timeout"
  | sourceTransport             => "collection_source_transport"
  | sourceHttpStatus            => "collection_source_http_status"
  | sourceBodyFailed            => "collection_source_body_failed"
  | connectorNotConfigured      => "collection_connector_not_configured"
  | connectorAuthRequired       => "collection_connector_auth_required"
  | connectorTimeout            => "collection_connector_timeout"
  | connectorTransport          => "collection_connector_transport"
  | connectorHttpStatus         => "collection_connector_http_status"
  | connectorInvalidContentType => "collection_connector_invalid_content_type"
  | connectorInvalidResponse    => "collection_connector_invalid_response"
  | connectorVersionMismatch    => "collection_connector_version_mismatch"
  | documentInvalid             => "collection_document_invalid"
  | ndjsonLineInvalid           => "collection_ndjson_line_invalid"
  | snapshotExpired             => "collection_snapshot_expired"
  | snapshotDrift               => "collection_snapshot_drift"
  | snapshotInvalid             => "collection_snapshot_invalid"
  | cursorInvalid               => "collection_cursor_invalid"
  | cursorCycle                 => "collection_cursor_cycle"
  | pageTooLarge                => "collection_page_too_large"
  | itemLimitExceeded           => "collection_item_limit_exceeded"

-- `anyhow::Error`
inductive IngestionError
  | collection (error : CollectionRuntimeError)
  | other (message : String)
  deriving DecidableEq, Repr

def containsText (text pattern : String) : Bool :=
  decide (pattern.toList <:+: text.toList)

def collectionErrorCode : IngestionError → String
  | .collection error => error.code
  | .other message    =>
    if containsText message "collection_conflicting_duplicate_key" then
      "collection_conflicting_duplicate_key"
    else
      "collection_ingestion_failed"

-- The error path can rely on `fail_batch` to take its code.
theorem validateFailureCode_collectionErrorCode {e : IngestionError} :
    validateFailureCode (collectionErrorCode e) = none := by
  cases e
  case collection error => cases error <;> decide +kernel
  case other =>
    rw [collectionErrorCode]
    cases containsText _ _ <;> decide +kernel

-- The JSON text of an item of a source.
abbrev RawItem := String

structure SourcePage where
  snapshotId : String
  items      : List RawItem
  nextCursor : Option String

def maxSnapshotIdBytes : Nat := 512

def maxCursorBytes : Nat := 4 * 1024

def collectionLeaseSeconds : Nat := 60

def validateSourcePage (page : SourcePage) (requestCursor expectedSnapshot : Option String)
    (pageSize : Nat) : Except CollectionRuntimeError SourcePage :=
  if page.snapshotId = "" || maxSnapshotIdBytes < page.snapshotId.utf8ByteSize then
    .error .snapshotInvalid
  else if expectedSnapshot.any (· ≠ page.snapshotId) then
    .error .snapshotDrift
  else if pageSize < page.items.length then
    .error .pageTooLarge
  else
    match page.nextCursor with
    | none      => .ok page
    | some next =>
      if next = "" || maxCursorBytes < next.utf8ByteSize then
        .error .cursorInvalid
      else if requestCursor = some next || page.items = [] then
        .error .cursorCycle
      else
        .ok page

-- What the worker uses of `SnapshotCipher`.
structure Cipher where
  encrypt    : String → Blob
  decrypt    : Blob → Option String
  textDigest : (domain value : String) → String
  pageDigest : String → Option String → List (String × String × BatchItemState × Option String) → String

def Cipher.decryptUtf8 (cipher : Cipher) : Option Blob → Except IngestionError (Option String)
  | none           => .ok none
  | some encrypted =>
    match cipher.decrypt encrypted with
    | none      => .error (.other "encrypted collection metadata is not UTF-8")
    | some text => .ok (some text)

-- What parsing, merging and rendering a raw item comes to.
inductive ItemDraft
  | invalid (failureCode : String)
  | rendered (blueprintDigest inputFingerprint : String) (snapshot : Sealed ExecutionSnapshot)
      (maxAttempts initialBackoffSeconds backoffCapSeconds : Nat)

structure RawItemDigests where
  id               : Uuid
  providerKeyHmac  : String
  parametersDigest : String

-- Where `process_claimed_batch` waits for the store or for a source.
inductive Stage
  | renewing
  | fetching
  | materializing (page : SourcePage) (items : List NewBatchItem)
  | reloading (isFinal : Bool)
  | finalizing
  | failing (error : IngestionError)
  | done

-- A run of `process_claimed_batch` with the record and the token it goes by.
structure Worker where
  batch      : Batch
  leaseToken : String
  stage      : Stage

-- What a worker is answered: that a call failed, or what the call gave.
inductive Answer
  | failed (error : IngestionError)
  | reached
  | fetched (page : SourcePage)
  | drafted (digests : RawItemDigests) (draft : ItemDraft)
  | named (newId : Uuid → Uuid)

namespace Worker

def fail (w : Worker) (error : IngestionError) : Worker :=
  { w with stage := .failing error }

def finish (w : Worker) : Worker :=
  { w with stage := .done }

-- A panic ends the task without reaching the error path.
def abort (w : Worker) : StoreError → Worker
  | .bail message        => w.fail (.other message)
  | .uniqueViolation     => w.fail (.other "UNIQUE constraint failed")
  | .foreignKeyViolation => w.fail (.other "FOREIGN KEY constraint failed")
  | .panicked            => w.finish

def start (batch : Batch) : Worker :=
  match batch.leaseToken with
  | none       =>
    let w : Worker := { batch, leaseToken := "", stage := .done }
    w.fail (.other "claimed collection batch is missing its lease token")
  | some token =>
    { batch, leaseToken := token, stage := if batch.ingestionComplete then .finalizing else .renewing }

variable (s : Store) (w : Worker) (cipher : Cipher) (now : Time)

def renew : Store × Worker :=
  match s.renewCollectionLease w.batch.id w.leaseToken collectionLeaseSeconds now with
  | .error e       => (s, w.abort e)
  | .ok (true, s')  => (s', { w with stage := .fetching })
  | .ok (false, s') => (s', w.finish)

def exceedsItemLimit (page : SourcePage) : Bool :=
  let count := w.batch.itemCount + page.items.length
  w.batch.maxItems < count || (page.nextCursor.isSome && w.batch.maxItems ≤ count)

def nextCursorDigest (page : SourcePage) : String :=
  cipher.textDigest "collection-cursor" (page.nextCursor.getD "complete")

def cursorDigestSeen (digest : String) : Bool :=
  s.batchCollectionPages.rows.any fun p => p.batchId = w.batch.id && p.requestCursorDigest = digest

-- The page as the source gave it, up to the first item.
def fetch (page : SourcePage) : Worker :=
  match cipher.decryptUtf8 w.batch.nextCursor, cipher.decryptUtf8 w.batch.collectionSnapshot with
  | .error e, _ | _, .error e  => w.fail e
  | .ok cursor, .ok snapshot =>
    match validateSourcePage page cursor snapshot w.batch.pageSize with
    | .error e => w.fail (.collection e)
    | .ok page =>
      if w.exceedsItemLimit page then
        w.fail (.collection .itemLimitExceeded)
      else if page.nextCursor.isSome && cursorDigestSeen s w (nextCursorDigest cipher page) then
        w.fail (.collection .cursorCycle)
      else
        { w with stage := .materializing page [] }

def commitOf (page : SourcePage) (items : List NewBatchItem) : CommitCollectionPage where
  batchId                  := w.batch.id
  leaseToken               := w.leaseToken
  expectedGeneration       := w.batch.cursorGeneration
  requestCursorDigest      := w.batch.nextCursorDigest
  pageDigest               := cipher.pageDigest page.snapshotId page.nextCursor <| items.map fun i =>
    (i.providerKeyHmac, i.parametersDigest, i.state, i.failureCode)
  collectionSnapshot       := cipher.encrypt page.snapshotId
  collectionSnapshotDigest := cipher.textDigest "collection-snapshot" page.snapshotId
  nextCursor               := page.nextCursor.map cipher.encrypt
  nextCursorDigest         := nextCursorDigest cipher page
  isFinal                  := page.nextCursor.isNone
  items

-- The item of a draft; a rendered one asks whether its input is held.
def materializeItem (itemIndex : Nat) (digests : RawItemDigests) :
    ItemDraft → Transaction NewBatchItem
  | .invalid code => .commit (item .invalid (some code)) s
  | .rendered digest fingerprint snapshot maxAttempts backoff cap =>
    match s.consumeProbeOrIsHeld digest fingerprint now with
    | .error e        => .error e
    | .ok (true, s')  => .commit (item .held (some "collection_input_poisoned")) s'
    | .ok (false, s') =>
      .commit { item .ready none with
        encryptedSnapshot     := some snapshot
        maxAttempts           := some maxAttempts
        initialBackoffSeconds := some backoff
        backoffCapSeconds     := some cap
      } s'
where
  item (state : BatchItemState) (failureCode : Option String) : NewBatchItem := {
    id                    := digests.id
    itemIndex
    providerKeyHmac       := digests.providerKeyHmac
    encryptedSnapshot     := none
    parametersDigest      := digests.parametersDigest
    state
    failureCode
    maxAttempts           := none
    initialBackoffSeconds := none
    backoffCapSeconds     := none
  }

def materialize (page : SourcePage) (items : List NewBatchItem) (digests : RawItemDigests)
    (draft : ItemDraft) : Store × Worker :=
  match materializeItem s now (w.batch.itemCount.toNat + items.length) digests draft with
  | .error e       => (s, w.abort e)
  | .ok (item, s') => (s', { w with stage := .materializing page (items ++ [item]) })

def commit (page : SourcePage) (items : List NewBatchItem) : Store × Worker :=
  let commit := w.commitOf cipher page items
  match s.commitCollectionPage commit now with
  | .error e         => (s, w.abort e)
  | .ok (.stale, s') => (s', w.finish)
  | .ok (_, s')      => (s', { w with stage := .reloading commit.isFinal })

def reload (isFinal : Bool) : Worker :=
  match s.batches.get? w.batch.id with
  | none       => w.fail (.other "collection batch disappeared after page commit")
  | some batch => { w with batch, stage := if isFinal then .finalizing else .renewing }

def finalize (newId : Uuid → Uuid) : Store × Worker :=
  match s.finalizeBatch w.batch.id w.leaseToken newId now with
  | .error e    => (s, w.abort e)
  | .ok (_, s') => (s', w.finish)

-- The error path of `process_claimed_batch`, which goes by the identifier of the batch alone.
def failBatch (error : IngestionError) : Store :=
  s.exec (.failBatch w.batch.id (collectionErrorCode error))

-- One step of `process_claimed_batch`: at most one transaction, and what is computed up to the next.
def step : Answer → Store × Worker
  | .failed error =>
    match w.stage with
    | .done | .failing _ => (s, w.finish)
    | _                  => (s, w.fail error)
  | .fetched page =>
    match w.stage with
    | .fetching => (s, fetch s w cipher page)
    | _         => (s, w)
  | .drafted digests draft =>
    match w.stage with
    | .materializing page items =>
      if items.length < page.items.length then materialize s w now page items digests draft else (s, w)
    | _ => (s, w)
  | .named newId =>
    match w.stage with
    | .finalizing => finalize s w now newId
    | _           => (s, w)
  | .reached =>
    match w.stage with
    | .renewing                 => renew s w now
    | .materializing page items =>
      if items.length < page.items.length then (s, w) else commit s w cipher now page items
    | .reloading isFinal        => (s, reload s w isFinal)
    | .failing error            => (failBatch s w error, w.finish)
    | _                         => (s, w)

end Worker

-- The coordinator's store and the collection workers at it.
structure Pool where
  store   : Store
  workers : Nat → Option Worker

inductive PoolEvent
  | store (op : Op)
  | claim (i : Nat) (batchId : Uuid) (owner token : String) (now : Time)
  | step (i : Nat) (now : Time) (answer : Answer)

namespace Pool

def initial : Pool where
  store   := .empty
  workers := fun _ => none

-- A worker starts on a batch that its claim returned; one that is started anew had crashed.
def claim (p : Pool) (i : Nat) (batchId : Uuid) (owner token : String) (now : Time) : Pool :=
  match p.store.claimCollectionBatch batchId owner collectionLeaseSeconds token now with
  | .ok (some batch, store) => { store, workers := Function.update p.workers i (Worker.start batch) }
  | .ok (none, store)       => { p with store }
  | .error _                => p

def exec (cipher : Cipher) (p : Pool) : PoolEvent → Pool
  | .store op                    => { p with store := p.store.exec op }
  | .claim i batchId owner token now => p.claim i batchId owner token now
  | .step i now answer           =>
    match p.workers i with
    | none   => p
    | some w =>
      let (store, w') := w.step p.store cipher now answer
      { store, workers := Function.update p.workers i w' }

end Pool

-- Any number of workers, interleaved with each other and with the other users of the store.
def collectors (cipher : Cipher) : Machine Pool PoolEvent where
  exec        := Pool.exec cipher
  Enabled _ _ := True

-- The worker's token is the batch's current one and its lease has not run out.
def Worker.Holds (w : Worker) (s : Store) (now : Time) : Prop :=
  ∃ b ∈ s.batches.get? w.batch.id, b.leaseToken = some w.leaseToken ∧
    ∃ expiry ∈ b.leaseExpiresAt, now < expiry

instance {w : Worker} {s : Store} {now : Time} : Decidable (w.Holds s now) :=
  inferInstanceAs (Decidable (∃ b ∈ s.batches.get? w.batch.id, b.leaseToken = some w.leaseToken ∧
    ∃ expiry ∈ b.leaseExpiresAt, now < expiry))

-- The step is the `fail_batch` of the error path.
def Worker.FailsBatch (w : Worker) (answer : Answer) : Prop :=
  answer = .reached ∧ ∃ error, w.stage = .failing error

namespace Store

variable {s s' : Store} {w : Worker} {cipher : Cipher} {now : Time} {batchId : Uuid}

-- The batch, its pages and its items are the same in both stores.
structure SameBatch (s s' : Store) (batchId : Uuid) : Prop where
  batch : s'.batches.get? batchId = s.batches.get? batchId
  pages : s'.pagesOf batchId = s.pagesOf batchId
  items : s'.core.itemsOf batchId = s.core.itemsOf batchId

theorem SameBatch.refl : s.SameBatch s batchId :=
  ⟨rfl, rfl, rfl⟩

theorem SameBatch.of_eq (h : s' = s) : s.SameBatch s' batchId :=
  h ▸ .refl

theorem SameBatch.of_consumeProbeOrIsHeld {digest fingerprint : String} {held : Bool}
    (h : s.consumeProbeOrIsHeld digest fingerprint now = .ok (held, s')) : s.SameBatch s' batchId := by
  have hf := s.exec_frame (.consumeProbeOrIsHeld digest fingerprint now)
  simp only [exec, h, Transaction.persisted_ok] at hf
  constructor
  case batch => rw [hf.batches (by simp [Op.writes])]
  case pages => simp only [pagesOf, hf.batchCollectionPages (by simp [Op.writes])]
  case items => simp only [Core.itemsOf, core, hf.batchItems (by simp [Op.writes])]

-- Whether the batch is scheduled or collecting.
def IsIngesting (s : Store) (batchId : Uuid) : Prop :=
  ∃ b ∈ s.batches.get? batchId, b.state.isIngesting

section Stale

variable (h : ¬w.Holds s now)

include h

theorem renew_stale : (w.renew s now).1 = s := by
  have hs : (s.renewCollectionLease w.batch.id w.leaseToken collectionLeaseSeconds now).persisted s = s := by
    refine congrArg (fun batches => { s with batches }) <| Table.update_eq_self fun b hb hl => absurd ?_ h
    simp only [Bool.and_eq_true, decide_eq_true_eq, Option.any_eq_true] at hl
    exact ⟨b, hl.left.left.left ▸ Table.get?_of_mem hb, hl.left.right, hl.right⟩
  simp only [Worker.renew]
  split
  case h_1 => rfl
  case h_2 he => simpa [he] using hs
  case h_3 he => simpa [he] using hs

theorem commit_stale {page : SourcePage} {items : List NewBatchItem} :
    (w.commit s cipher now page items).1 = s := by
  simp only [Worker.commit]
  obtain ⟨-, hs⟩ | ⟨_, -, batch, -, -, -, hb, ha, -⟩ :=
    s.commitCollectionPage_cases (w.commitOf cipher page items) now
  case inl =>
    split
    case h_1 => rfl
    case h_2 he => simpa [he] using hs
    case h_3 he => simpa [he] using hs
  case inr => exact absurd ⟨batch, hb, ha.token, ha.lease⟩ h

theorem finalize_stale {newId : Uuid → Uuid} : (w.finalize s now newId).1 = s := by
  have hs : (s.finalizeBatch w.batch.id w.leaseToken newId now).persisted s = s := by
    simp only [finalizeBatch]
    split
    case h_1 => rfl
    case h_2 batch hb =>
      split
      any_goals rfl
      all_goals
        split
        case isTrue => rfl
        case isFalse hl =>
          simp only [ne_eq, Bool.or_eq_true, decide_eq_true_eq, Bool.not_eq_true', not_or, not_not,
            Bool.not_eq_false, Option.any_eq_true] at hl
          exact absurd ⟨batch, hb, hl.left.right, hl.right⟩ h
  simp only [Worker.finalize]
  split
  case h_1 => rfl
  case h_2 he => simpa [he] using hs

end Stale

theorem materialize_same {page : SourcePage} {items : List NewBatchItem} {digests : RawItemDigests}
    {draft : ItemDraft} : s.SameBatch (w.materialize s now page items digests draft).1 batchId := by
  simp only [Worker.materialize]
  split
  case h_1 => exact .refl
  case h_2 item s' he =>
    cases draft
    case invalid => cases he; exact .refl
    case rendered =>
      simp only [Worker.materializeItem] at he
      split at he
      case h_1 => cases he
      case h_2 hc => cases he; exact .of_consumeProbeOrIsHeld hc
      case h_3 hc => cases he; exact .of_consumeProbeOrIsHeld hc

theorem failBatch_same_iff {error : IngestionError} :
    s.SameBatch (w.failBatch s error) w.batch.id ↔ ¬s.IsIngesting w.batch.id := by
  simp only [Worker.failBatch, exec, failBatch, validateFailureCode_collectionErrorCode]
  split
  case isTrue ha =>
    simp only [List.any_eq_true, Bool.and_eq_true, Bool.or_eq_true, decide_eq_true_eq] at ha
    obtain ⟨b, hb, hi, hs⟩ := ha
    have hg : s.batches.get? w.batch.id = some b := hi ▸ Table.get?_of_mem hb
    refine iff_of_false (fun h => ?_) (not_not_intro ⟨b, hg, ?_⟩)
    case refine_1 =>
      have he := h.batch
      simp only [Transaction.persisted_commit, appendAudit, Table.get?_update, hg, Option.map_some,
        Option.some.injEq] at he
      rw [if_pos (by simpa [hi] using hs)] at he
      have hf : b.state = .failed := he ▸ rfl
      simp [hf] at hs
    case refine_2 => rcases hs with hs | hs <;> rw [hs] <;> rfl
  case isFalse ha =>
    refine iff_of_true .refl ?_
    rintro ⟨b, hb, hs⟩
    refine ha ?_
    have hs : b.state = .scheduled ∨ b.state = .collecting := by
      cases hc : b.state <;> simp_all [BatchState.isIngesting]
    simp only [List.any_eq_true, Bool.and_eq_true, Bool.or_eq_true, decide_eq_true_eq]
    exact ⟨b, Table.mem_of_get? hb, Table.key_of_get? hb, hs⟩

-- The error path is the one write of a worker that does not check the lease.
theorem step_stale_iff (h : ¬w.Holds s now) (answer : Answer) :
    s.SameBatch (w.step s cipher now answer).1 w.batch.id ↔
      ¬(w.FailsBatch answer ∧ s.IsIngesting w.batch.id) := by
  have hn (hs : s.SameBatch (w.step s cipher now answer).1 w.batch.id) (hf : ¬w.FailsBatch answer) :
      s.SameBatch (w.step s cipher now answer).1 w.batch.id ↔
        ¬(w.FailsBatch answer ∧ s.IsIngesting w.batch.id) :=
    iff_of_true hs fun h => hf h.left
  cases answer
  case failed =>
    refine hn ?_ nofun
    cases hs : w.stage <;> simp only [Worker.step, hs] <;> exact .refl
  case fetched =>
    refine hn ?_ nofun
    cases hs : w.stage <;> simp only [Worker.step, hs] <;> exact .refl
  case drafted =>
    refine hn ?_ nofun
    cases hs : w.stage
    case materializing =>
      simp only [Worker.step, hs]
      split
      case isTrue => exact materialize_same
      case isFalse => exact .refl
    all_goals simp only [Worker.step, hs]; exact .refl
  case named =>
    refine hn ?_ nofun
    cases hs : w.stage
    case finalizing => simp only [Worker.step, hs]; exact .of_eq (finalize_stale h)
    all_goals simp only [Worker.step, hs]; exact .refl
  case reached =>
    cases hs : w.stage
    case failing error =>
      have hf : w.FailsBatch .reached := ⟨rfl, error, hs⟩
      simp only [Worker.step, hs, failBatch_same_iff, hf, true_and]
    all_goals refine hn ?_ (by simp [Worker.FailsBatch, hs]); simp only [Worker.step, hs]
    case renewing => exact .of_eq (renew_stale h)
    case materializing =>
      split
      case isTrue => exact .refl
      case isFalse => exact .of_eq (commit_stale h)
    all_goals exact .refl

end Store

namespace Pool

theorem stale_worker_changes_nothing_iff (cipher : Cipher) (p : Pool) {i : Nat} {w : Worker}
    (hw : p.workers i = some w) {now : Time} (h : ¬w.Holds p.store now) (answer : Answer) :
    p.store.SameBatch (p.exec cipher (.step i now answer)).store w.batch.id ↔
      ¬(w.FailsBatch answer ∧ p.store.IsIngesting w.batch.id) := by
  simpa only [exec, hw] using Store.step_stale_iff h answer

end Pool

namespace Sample

def plain : Cipher where
  encrypt          := id
  decrypt          := some
  textDigest _     := id
  pageDigest _ _ _ := "page"

-- A second worker takes the batch over once the lease of the first has run out.
def contested : List PoolEvent := [
    .store (.createSchedule schedule 0),
    .store (.createBatch batch 2 0),
    .claim 0 100 "worker" "lease" 0,
    .claim 1 100 "other" "takeover" 100000
  ]

-- The lease of the first worker runs out while it waits for its source, which then times out.
def overtaken : List PoolEvent := [
    .store (.createSchedule schedule 0),
    .store (.createBatch batch 2 0),
    .claim 0 100 "worker" "lease" 0,
    .step 0 0 .reached,
    .claim 1 100 "other" "takeover" 100000,
    .step 0 100000 (.failed (.collection .sourceTimeout))
  ]

end Sample

namespace Pool

open Sample

theorem stale_worker_changes_nothing_iff_contested :
    ∃ w, ((collectors plain).run .initial contested).workers 0 = some w ∧
      ((collectors plain).run .initial contested).store.SameBatch
        (((collectors plain).run .initial contested).exec plain (.step 0 100000 .reached)).store
        w.batch.id := by
  refine ⟨_, rfl, stale_worker_changes_nothing_iff plain _ rfl (by decide) .reached |>.mpr ?_⟩
  exact fun ⟨⟨_, _, h⟩, _⟩ => nomatch h

theorem stale_worker_fails_batch : ∃ p, (collectors plain).Reachable .initial p ∧
    ∃ w w', p.workers 0 = some w ∧ p.workers 1 = some w' ∧ w'.batch.id = w.batch.id ∧
      ¬w.Holds p.store 100000 ∧ w'.Holds p.store 100000 ∧
      ¬p.store.SameBatch (p.exec plain (.step 0 100000 .reached)).store w.batch.id := by
  refine ⟨(collectors plain).run .initial overtaken, ?_, _, _, rfl, rfl, rfl, by decide, by decide, ?_⟩
  case refine_1 => exact Machine.Reachable.refl.run <| .of_forall fun _ _ => trivial
  case refine_2 =>
    intro h
    have hb := congrArg (Option.map (·.state)) h.batch
    revert hb
    decide

end Pool

end Scheduler
