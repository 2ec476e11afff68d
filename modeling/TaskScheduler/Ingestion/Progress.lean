import TaskScheduler.Store.Frames
import TaskScheduler.Batches.Links

namespace Scheduler

-- What the pages of a batch amount to in its row. Only the commit of a page writes these columns.
structure Progress where
  id                       : Uuid
  maxItems                 : Nat
  maxActiveRuns            : Nat
  collectionSnapshotDigest : Option String
  nextCursorDigest         : String
  cursorGeneration         : Nat
  ingestionComplete        : Bool
  itemCount                : Int
  validItemCount           : Int
  invalidItemCount         : Int
  heldItemCount            : Int

def Batch.progress (b : Batch) : Progress where
  id                       := b.id
  maxItems                 := b.maxItems
  maxActiveRuns            := b.maxActiveRuns
  collectionSnapshotDigest := b.collectionSnapshotDigest
  nextCursorDigest         := b.nextCursorDigest
  cursorGeneration         := b.cursorGeneration
  ingestionComplete        := b.ingestionComplete
  itemCount                := b.itemCount
  validItemCount           := b.validItemCount
  invalidItemCount         := b.invalidItemCount
  heldItemCount            := b.heldItemCount

-- The operations that open a batch.
def Op.opensBatch : Op → Bool
  | .createCronBatch .. | .createBatch .. | .retriggerBatchSnapshot .. => true
  | _                                                                  => false

namespace Core

variable {c c' c₁ c₂ : Core}

def itemsOf (c : Core) (batchId : Uuid) : List BatchItem :=
  c.batchItems.select (·.batchId = batchId)

-- The ingestion of every batch that still collects is where it was. Batches may stop to collect.
structure Calm (c c' : Core) : Prop where
  batches   : Table.Same Batch.progress c.batches c'.batches
  items     : Table.Same BatchItem.batchId c.batchItems c'.batchItems
  ingesting : ∀ b' ∈ c'.batches, b'.state.isIngesting → ∃ b ∈ c.batches, b.id = b'.id ∧
    b.state.isIngesting ∧ b'.poisonedItemCount = b.poisonedItemCount ∧ c'.itemsOf b'.id = c.itemsOf b'.id

namespace Calm

theorem of_eq (hb : c'.batches = c.batches) (hi : c'.batchItems = c.batchItems) : Calm c c' where
  batches   := hb ▸ .refl
  items     := hi ▸ .refl
  ingesting := fun b h hs => ⟨b, hb ▸ h, rfl, hs, rfl, by simp only [itemsOf, hi]⟩

theorem refl : Calm c c :=
  of_eq rfl rfl

theorem trans (h₁ : Calm c c₁) (h₂ : Calm c₁ c₂) : Calm c c₂ where
  batches   := h₁.batches.trans h₂.batches
  items     := h₁.items.trans h₂.items
  ingesting b₂ hb₂ hs₂ := by
    have ⟨b₁, hb₁, hk₁, hs₁, hp₁, hi₁⟩ := h₂.ingesting b₂ hb₂ hs₂
    have ⟨b, hb, hk, hs, hp, hi⟩ := h₁.ingesting b₁ hb₁ hs₁
    exact ⟨b, hb, hk.trans hk₁, hs, hp₁.trans hp, hi₁.trans (hk₁ ▸ hi)⟩

-- Batches that the update touches may stop to collect; if they do not, it leaves their items alone.
theorem of_update {p : Batch → Bool} {f : Batch → Batch}
    (hb : c'.batches.rows = c.batches.rows.map fun b => if p b then f b else b)
    (hi : Table.Same BatchItem.batchId c.batchItems c'.batchItems)
    (hf : ∀ b ∈ c.batches, p b → (f b).progress = b.progress)
    (hp : ∀ b ∈ c.batches, p b → (f b).state.isIngesting → b.state.isIngesting ∧
      (f b).poisonedItemCount = b.poisonedItemCount ∧ c'.itemsOf b.id = c.itemsOf b.id)
    (hq : ∀ b ∈ c.batches, ¬p b → b.state.isIngesting → c'.itemsOf b.id = c.itemsOf b.id) :
    Calm c c' where
  batches := .of_update hb hf
  items   := hi
  ingesting b' hb' hs := by
    rw [← Table.mem_rows, hb] at hb'
    have ⟨b, hm, he⟩ := List.mem_map.mp hb'
    split at he
    case isTrue h =>
      subst he
      have hk : (f b).id = b.id := congrArg Progress.id (hf b hm h)
      have ⟨hs, hc, hi⟩ := hp b hm h hs
      exact ⟨b, hm, hk.symm, hs, hc, hk ▸ hi⟩
    case isFalse h =>
      subst he
      exact ⟨b, hm, rfl, hs, rfl, hq b hm h hs⟩

-- A batch that is told about its runs has stopped to collect.
theorem sync {r : Uuid} {st : RunState} (l : Linked c) (hb : c₁.batches = c.batches)
    (hi : c₁.batchItems = c.batchItems) (hr : Table.Same Run.ref c.runs c₁.runs) : Calm c (c₁.sync r st) := by
  have l : Linked c₁ := l.congr hr (hi ▸ .refl) (hb ▸ .refl) (hb ▸ l.staged)
  refine trans (of_eq hb hi) ?_
  clear hr hb hi
  simp only [Core.sync]
  split
  case h_1 => exact .refl
  case h_2 batchId itemId hl =>
    refine .of_update rfl (.of_update rfl fun _ _ _ => rfl) (fun _ _ _ => rfl) ?_ ?_
    case refine_1 =>
      intro b hb hk hs
      obtain ⟨run, hr, hl⟩ := Option.bind_eq_some_iff.mp hl
      have hx : run.batchId = some b.id := by
        simp only [Run.link] at hl
        split at hl <;> simp_all
      have hc := l.closed hb (Table.mem_of_get? hr) hx
      rcases c₁.settled_cases b st with he | ⟨-, he | he⟩
      case inl => simp [Batch.withState, he, hc] at hs
      case inr.inl => simp [Batch.withState, he, BatchState.isIngesting] at hs
      case inr.inr =>
        simp only [Batch.withState] at hs
        cases hx : c₁.settled b st <;> simp_all [BatchState.isIngesting, BatchState.isCompleted]
    case refine_2 =>
      intro b _ hn _
      refine Table.select_of_update rfl fun i _ hi => ?_
      have hk : i.batchId = batchId := by simp_all
      have hn : b.id ≠ batchId := by simpa using hn
      simp [hk, hn.symm]

theorem poison (l : Linked c) {poisoned : Uuid → Bool} : Calm c (c.poison poisoned) := by
  -- A poisoned item has a run.
  have hc (b) (hb : b ∈ c.batches) (i) (hi : i ∈ c.batchItems) (hp : i.runId.any poisoned)
      (hk : i.batchId = b.id) : b.state.isIngesting = false := by
    by_contra hs
    simp [l.no_run hb (by simpa using hs) hi hk] at hp
  refine .of_update rfl (.of_update rfl fun _ _ _ => rfl) (fun _ _ _ => rfl) ?_ ?_
  case refine_1 =>
    intro b hb hm hs
    have ⟨i, hi, hk⟩ := List.mem_map.mp (List.mem_dedup.mp <| of_decide_eq_true hm)
    have ⟨hi, hp⟩ := Table.mem_select.mp hi
    have hc := hc b hb i hi (Bool.and_eq_true_iff.mp hp).left hk
    rcases (c.failPoisoned poisoned).drained_cases b with he | ⟨-, he⟩
    case inl => simp [he, hc] at hs
    case inr => simp [he, BatchState.isIngesting] at hs
  case refine_2 =>
    intro b hb _ hs
    refine Table.select_of_update rfl fun i hi hp => ?_
    have hk : i.batchId ≠ b.id := fun hk => by
      simp [hc b hb i hi (Bool.and_eq_true_iff.mp hp).left hk] at hs
    simp [hk]

theorem cancelBatch {batchId : Uuid} : Calm c (c.cancelBatch batchId) := by
  refine .of_update rfl (.of_update rfl fun _ _ _ => rfl) (fun _ _ _ => rfl) (fun _ _ _ => nofun) ?_
  intro b hb hn hs
  have hn : b.id ≠ batchId := by
    rintro rfl
    cases ho : b.state <;> simp_all [BatchState.isOpen, BatchState.isIngesting]
  refine Table.select_of_update rfl fun i _ hi => ?_
  have hk : i.batchId = batchId := by simp_all
  simp [hk, hn.symm]

theorem concludes (l : Linked c) {a : Attempt} {outcome} {p} (h : Concludes c a outcome p c') :
    Calm c c' := by
  cases h
  case late => exact .of_eq rfl rfl
  case applied => exact .sync l rfl rfl (.of_update rfl fun _ _ _ => rfl)

end Calm

-- Materialization stays within its batch.
theorem Materializes.itemsOf {batch : Batch} {items : List BatchItem} (h : Materializes batch items c c')
    (hn : (items.map BatchItem.id).Nodup)
    (hi : ∀ i ∈ items, i ∈ c.batchItems ∧ i.batchId = batch.id ∧ i.state = .ready) :
    Table.Same BatchItem.batchId c.batchItems c'.batchItems ∧
      ∀ id ≠ batch.id, c'.itemsOf id = c.itemsOf id := by
  refine h.preserves (P := fun c' => Table.Same BatchItem.batchId c.batchItems c'.batchItems ∧
    ∀ id ≠ batch.id, c'.itemsOf id = c.itemsOf id) ?_ hn hi ⟨.refl, fun _ _ => rfl⟩
  intro c' item run runs ⟨hs, hq⟩ hm hb _ _ _ _ _
  refine ⟨hs.trans <| .of_update rfl fun _ _ _ => rfl, fun id hk => .trans ?_ (hq id hk)⟩
  refine Table.select_of_update rfl fun i hi hp => ?_
  obtain rfl : i = item := Table.key_injOn hi hm <| by simp_all [Keyed.key]
  simp [hb, hk.symm]

theorem Calm.finalize {batch : Batch} {items : List BatchItem} {state : BatchState} {now : Time}
    (hb : c.batches.get? batch.id = some batch) (hs : batch.state = .collecting)
    (hn : (items.map BatchItem.id).Nodup)
    (hi : ∀ i ∈ items, i ∈ c.batchItems ∧ i.batchId = batch.id ∧ i.state = .ready)
    (hm : Materializes batch items c c₁) (hc : state.isIngesting = false) :
    Calm c (c₁.closeIngestion batch.id state now) := by
  have ⟨h₁, h₂⟩ := hm.itemsOf hn hi
  have hr : (c₁.closeIngestion batch.id state now).batches.rows = c.batches.rows.map _ :=
    congrArg (fun t : Table Batch => t.rows.map _) hm.batches
  refine .of_update hr h₁ (fun _ _ _ => rfl) (fun _ _ _ hx => absurd hx <| by simp [hc]) fun b hb' hx _ => ?_
  refine h₂ b.id fun hk => ?_
  obtain rfl : b = batch := Table.key_injOn hb' (Table.mem_of_get? hb) hk
  simp [hs] at hx

end Core

namespace Store

variable {s s' : Store} {now : Time}

section Calm

theorem claimCollectionBatch_calm {batchId owner lease token} :
    s.core.Calm ((s.claimCollectionBatch batchId owner lease token now).persisted s).core := by
  simp only [claimCollectionBatch]
  split
  case isTrue => exact .refl
  case isFalse =>
    refine .of_update rfl .refl (fun _ _ _ => rfl) (fun b _ hp _ => ⟨?_, rfl, rfl⟩) fun _ _ _ _ => rfl
    cases hs : b.state <;> simp_all [BatchState.isIngesting]

theorem renewCollectionLease_calm {batchId token lease} :
    s.core.Calm ((s.renewCollectionLease batchId token lease now).persisted s).core :=
  .of_update rfl .refl (fun _ _ _ => rfl) (fun _ _ _ hs => ⟨hs, rfl, rfl⟩) fun _ _ _ _ => rfl

theorem failBatch_calm {batchId code} :
    s.core.Calm ((s.failBatch batchId code).persisted s).core := by
  simp only [failBatch]
  repeat' split
  any_goals exact .refl
  exact .of_update rfl .refl (fun _ _ _ => rfl) (fun _ _ _ => by rintro ⟨⟩) fun _ _ _ _ => rfl

theorem finalizeBatch_calm {batchId token newId} :
    s.core.Calm ((s.finalizeBatch batchId token newId now).persisted s).core := by
  simp only [finalizeBatch]
  repeat' split
  any_goals exact .refl
  all_goals
    case _ batch hb _ hs hc _ s₁ hm =>
      obtain rfl : batch.id = batchId := Table.key_of_get? hb
      refine .finalize hb (by simp_all) ?_ ?_ (materializeItems_core hm) ?_
      case refine_1 => exact (List.perm_insertionSort _ _).map _ |>.nodup_iff.mpr Table.select_nodup
      case refine_2 => simp [readyItems, itemsInOrder, List.mem_insertionSort, core]
      case refine_3 =>
        repeat' split
        all_goals rfl

theorem cancelBatch_calm {batchId} : s.core.Calm ((s.cancelBatch batchId now).persisted s).core := by
  obtain ⟨_, he⟩ | ⟨batch, r, -, -, he, hc⟩ := s.cancelBatch_cases batchId now
  case inl =>
    rw [he]
    exact .refl
  case inr =>
    rw [he, Transaction.persisted_ok, hc]
    exact .cancelBatch

theorem createAttempt_calm {runId agentId lease id token} (l : s.core.Linked) :
    s.core.Calm ((s.createAttempt runId agentId lease id token now).persisted s).core := by
  simp only [createAttempt]
  repeat' split
  any_goals exact .refl
  simp only [Transaction.persisted_commit, core_appendAudit, core_syncBatchRunState]
  exact .sync l rfl rfl (.of_update rfl fun _ _ _ => rfl)

theorem releaseOffer_calm {id} (l : s.core.Linked) :
    s.core.Calm ((s.releaseOffer id).persisted s).core := by
  simp only [releaseOffer]
  repeat' split
  any_goals exact .refl
  simp only [Transaction.persisted_commit, requeueRun, core_syncBatchRunState]
  exact .sync l rfl rfl (.of_update rfl fun _ _ _ => rfl)

theorem rejectOffer_calm {id token result encrypted} (l : s.core.Linked) :
    s.core.Calm ((s.rejectOffer id token result encrypted now).persisted s).core := by
  simp only [rejectOffer]
  repeat' split
  any_goals exact .refl
  simp only [Transaction.persisted_commit, requeueRun, core_appendAudit, core_syncBatchRunState]
  exact .sync l rfl rfl (.of_update rfl fun _ _ _ => rfl)

theorem finishAttempt_calm {id token result encrypted random} (l : s.core.Linked) :
    s.core.Calm ((s.finishAttempt id token result encrypted random now).persisted s).core := by
  obtain h | ⟨a, -, h⟩ := s.finishAttempt_cases id token result encrypted random now
  case inl =>
    rw [h]
    exact .refl
  case inr => exact .concludes l h

theorem finishExpiredAttempt_calm {id token result encrypted random} (l : s.core.Linked) :
    s.core.Calm ((s.finishExpiredAttempt id token result encrypted random now).persisted s).core := by
  unfold finishExpiredAttempt
  cases h : s.finishAttemptInner id token result encrypted true random now
  case error => exact .refl
  case ok r =>
    obtain he | ⟨a, -, hc⟩ := finishAttemptInner_concludes h
    case inl => exact he ▸ .refl
    case inr => exact .concludes l hc

theorem cancelRun_calm {runId} (l : s.core.Linked) :
    s.core.Calm ((s.cancelRun runId now).persisted s).core := by
  simp only [cancelRun]
  repeat' split
  any_goals exact .refl
  simp only [Transaction.persisted_commit, core_appendAudit, core_syncBatchRunState]
  exact .sync l rfl rfl (.of_update rfl fun _ _ _ => rfl)

theorem retryRun_calm {runId} (l : s.core.Linked) :
    s.core.Calm ((s.retryRun runId now).persisted s).core := by
  have ⟨_, hd⟩ := s.decrementFailedRollup_eq runId now
  simp only [retryRun, hd]
  split
  case isFalse => exact .refl
  case isTrue =>
    simp only [Transaction.persisted_commit, core_appendAudit, core_syncBatchRunState]
    exact .sync l rfl rfl (.of_update rfl fun _ _ _ => rfl)

theorem recordHealthEvidence_calm {e nodes id order} (l : s.core.Linked) :
    s.core.Calm ((s.recordHealthEvidence e nodes id order now).persisted s).core := by
  cases h : s.recordHealthEvidence e nodes id order now
  case error => exact .refl
  case ok r =>
    have ⟨_, _, _, hc⟩ := recordHealthEvidence_core h
    rw [Transaction.persisted_ok, hc]
    split
    case isTrue => exact .poison l
    case isFalse => exact .refl

end Calm

section Open

-- A new batch was inserted, or nothing happened.
def Opens (s s' : Store) : Prop :=
  s'.core = s.core ∨ ∃ (new : NewBatch) (triggerId : Uuid) (now : Time) (batches : Table Batch),
    s.batches.insert (new.row triggerId now) = some batches ∧ s'.core = { s.core with batches }

theorem insertBatch_opens {s₁ s₂ : Store} {new triggerId entity event} (h : s₁.core = s.core)
    (hb : s₁.insertBatch new triggerId now = .ok s₂) : Opens s (s₂.appendAudit entity event) := by
  obtain ⟨batches, hi, rfl⟩ := insertBatch_eq hb
  have he : s₁.batches = s.batches := congrArg Core.batches h
  exact .inr ⟨new, triggerId, now, batches, he ▸ hi, h ▸ rfl⟩

theorem createCronBatch_opens {new revision cron triggerId} :
    Opens s ((s.createCronBatch new revision cron triggerId now).persisted s) := by
  simp only [createCronBatch]
  repeat' split
  any_goals exact .inl rfl
  case _ hf _ _ ht _ _ hb =>
    exact insertBatch_opens ((insertTriggerIdentity_core ht).trans (fence_core hf)) hb

theorem createBatch_opens {new triggerId} :
    Opens s ((s.createBatch new triggerId now).persisted s) := by
  simp only [createBatch]
  repeat' split
  any_goals exact .inl rfl
  case _ ht _ _ hb => exact insertBatch_opens (insertTriggerIdentity_core ht) hb

theorem retriggerBatchSnapshot_opens {source new scheduledAt triggerId} :
    Opens s ((s.retriggerBatchSnapshot source new scheduledAt triggerId now).persisted s) := by
  simp only [retriggerBatchSnapshot]
  repeat' split
  any_goals exact .inl rfl
  case _ ht _ _ hb => exact insertBatch_opens (insertTriggerIdentity_core ht) hb

end Open

theorem exec_opens {op : Op} (ho : op.opensBatch) : s.Opens (s.exec op) := by
  cases op
  case createCronBatch => exact createCronBatch_opens
  case createBatch => exact createBatch_opens
  case retriggerBatchSnapshot => exact retriggerBatchSnapshot_opens
  all_goals contradiction

theorem exec_calm_of_not_opens (l : s.core.Linked) {op : Op} (h : .batchCollectionPages ∉ op.writes)
    (ho : op.opensBatch = false) : s.core.Calm (s.exec op).core := by
  have calm_of_frame (hb : .batches ∉ op.writes) (hi : .batchItems ∉ op.writes) :
      s.core.Calm (s.exec op).core :=
    .of_eq ((s.exec_frame op).batches hb) ((s.exec_frame op).batchItems hi)
  cases op
  case createCronBatch | createBatch | retriggerBatchSnapshot => contradiction
  case claimCollectionBatch => exact claimCollectionBatch_calm
  case renewCollectionLease => exact renewCollectionLease_calm
  case commitCollectionPage => simp [Op.writes] at h
  case finalizeBatch => exact finalizeBatch_calm
  case failBatch => exact failBatch_calm
  case cancelBatch => exact cancelBatch_calm
  case createAttempt => exact createAttempt_calm l
  case releaseOffer => exact releaseOffer_calm l
  case rejectOffer => exact rejectOffer_calm l
  case finishAttempt => exact finishAttempt_calm l
  case finishExpiredAttempt => exact finishExpiredAttempt_calm l
  case cancelRun => exact cancelRun_calm l
  case retryRun => exact retryRun_calm l
  case recordHealthEvidence => exact recordHealthEvidence_calm l
  all_goals exact calm_of_frame (by simp [Op.writes]) (by simp [Op.writes])

-- Apart from the commit of a page, an operation at most opens a batch or ends the ingestion of some.
theorem exec_calm (l : s.core.Linked) (op : Op) (h : .batchCollectionPages ∉ op.writes) :
    s.core.Calm (s.exec op).core ∨ s.Opens (s.exec op) := by
  cases ho : op.opensBatch
  case false => exact .inl <| exec_calm_of_not_opens l h ho
  case true => exact .inr <| exec_opens ho

end Store

end Scheduler
