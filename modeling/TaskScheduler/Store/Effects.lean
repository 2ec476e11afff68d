import TaskScheduler.Store.Core

namespace Scheduler

namespace Core

variable {c : Core} {id runId : Uuid} {st : RunState}

@[simp]
theorem sync_runs : (c.sync runId st).runs = c.runs := by
  unfold sync
  split <;> rfl

@[simp]
theorem sync_attempts : (c.sync runId st).attempts = c.attempts := by
  unfold sync
  split <;> rfl

theorem setRun_any {f : Run → Run} {hf} :
    c.setRun id (fun _ => true) f hf = { c with runs := c.runs.update (·.id = id) f hf } := by
  simp [setRun]

namespace Concludes

variable {a : Attempt} {outcome : ExecutionOutcome} {p : AttemptState → Prop} {c' : Core}

theorem attempt (h : Concludes c a outcome p c') : c.attempts.get? a.id = some a := by
  cases h <;> assumption

theorem state (h : Concludes c a outcome p c') : p a.state := by
  cases h <;> assumption

theorem concluded (h : Concludes c a outcome p c') :
    ∃ b, c'.attempts.get? a.id = some b ∧ b.state.isConcluded := by
  have ha := h.attempt
  cases h <;> simp [setAttempt, setRun, ha, Attempt.recordResult, AttemptState.isConcluded]

end Concludes

theorem settled_terminal {b : Batch} (h : st.isTerminal) : c.settled b st =
    if b.state = .running && c.childRuns b.id ≠ [] && (c.childRuns b.id).all (·.state.isTerminal) then
      b.completion (c.childRuns b.id)
    else
      b.state := by
  simp only [settled, h, if_true]

theorem settled_active {b : Batch} (h : st.isTerminal = false) :
    c.settled b st = if b.state.isCompleted then .running else b.state := by
  simp only [settled, h, Bool.false_eq_true, if_false]

end Core

namespace Store

variable {s s' s₁ s₂ : Store} {now : Time}

@[simp]
theorem core_appendAudit {entity event} : (s.appendAudit entity event).core = s.core :=
  rfl

theorem foldl_core {α : Type} {f : Store → α → Store} (h : ∀ s a, (f s a).core = s.core) {l : List α} :
    (l.foldl f s).core = s.core := by
  induction l generalizing s
  case nil => rfl
  case cons a l hi => exact hi.trans (h s a)

@[simp]
theorem core_childRuns {batchId} : s.core.childRuns batchId = s.childRuns batchId :=
  rfl

section Sync

variable {batchId : Uuid} {st : RunState} {st : RunState}

theorem reopenBatch_batches (s : Store) (batchId : Uuid) (ht : st.isTerminal = false) : (s.reopenBatch batchId).batches =
    s.batches.update (·.id = batchId) (fun b => b.withState <| s.core.settled b st) := by
  have h : (s.reopenBatch batchId).batches =
      s.batches.update (fun b => b.id = batchId && b.state.isCompleted) (·.withState .running) := by
    refine .trans ?_ Table.ite_any_update
    simp only [reopenBatch]
    split <;> rfl
  rw [h]
  refine Table.update_congr fun b _ => ?_
  rw [Core.settled_active ht]
  by_cases h₁ : b.id = batchId <;> by_cases h₂ : b.state.isCompleted <;> simp [h₁, h₂]

theorem completeBatch_batches (s : Store) (batchId : Uuid) (ht : st.isTerminal) : (s.completeBatch batchId).batches =
    s.batches.update (·.id = batchId) (fun b => b.withState <| s.core.settled b st) := by
  simp only [completeBatch]
  split
  case h_1 hb =>
    refine (Table.update_eq_self fun b hm hi => ?_).symm
    exact absurd (of_decide_eq_true hi) <| Table.get?_eq_none.mp hb b hm
  case h_2 batch hb =>
    have hb {b} (hm : b ∈ s.batches) (hi : b.id = batchId) : b = batch :=
      Table.key_injOn hm (Table.mem_of_get? hb) (hi.trans (Table.key_of_get? hb).symm)
    split
    case isTrue hc =>
      refine .trans (?_ : _ = s.batches.update (fun b => b.id = batchId && b.state = .running)
        (·.withState <| batch.completion (s.childRuns batchId))) (Table.update_congr fun b hm => ?_)
      · refine .trans ?_ Table.ite_any_update
        split <;> rfl
      · by_cases hi : b.id = batchId
        case neg => simp [hi]
        case pos =>
          rw [Core.settled_terminal ht, hi, core_childRuns, Bool.and_assoc, hc, ← hb hm hi]
          by_cases hr : b.state = .running <;> simp [hr]
    case isFalse hc =>
      refine (Table.update_eq_self fun b hm hi => ?_).symm
      have hi : b.id = batchId := of_decide_eq_true hi
      rw [Core.settled_terminal ht, hi, core_childRuns, Bool.and_assoc, eq_false_of_ne_true hc]
      simp

@[simp]
theorem core_syncBatchRunState {runId} :
    (s.syncBatchRunState runId st).core = s.core.sync runId st := by
  simp only [syncBatchRunState, Core.sync]
  cases hr : s.runs.get? runId
  case none => simp [core, hr]
  case some run =>
    cases hb : run.batchId
    case none => simp [core, hr, Run.link, hb]
    case some batchId =>
      cases hi : run.batchItemId
      case none => simp [core, hr, Run.link, hb, hi]
      case some itemId =>
        have hl : (s.core.runs.get? runId).bind Run.link = some (batchId, itemId) := by
          simp [core, hr, Run.link, hb, hi]
        simp only [hl, hb, hi]
        split
        case isTrue ht =>
          obtain ⟨_, _, he⟩ := (s.setItemState batchId itemId st.itemState).completeBatch_eq batchId
          have hc := (s.setItemState batchId itemId st.itemState).completeBatch_batches batchId ht
          rw [he] at hc ⊢
          exact Core.ext rfl rfl hc rfl
        case isFalse ht =>
          obtain ⟨_, _, he⟩ := (s.setItemState batchId itemId st.itemState).reopenBatch_eq batchId
          have hc := (s.setItemState batchId itemId st.itemState).reopenBatch_batches batchId <|
            eq_false_of_ne_true ht
          rw [he] at hc ⊢
          exact Core.ext rfl rfl hc rfl

end Sync

section Schedules

theorem createSchedule_core {new} : ((s.createSchedule new now).persisted s).core = s.core := by
  simp only [createSchedule]
  repeat' split
  all_goals rfl

theorem updateSchedule_core {id revision spec snapshot} :
    ((s.updateSchedule id revision spec snapshot now).persisted s).core = s.core := by
  simp only [updateSchedule]
  split <;> rfl

theorem setScheduleEnabled_core {id enabled} :
    ((s.setScheduleEnabled id enabled now).persisted s).core = s.core := by
  simp only [setScheduleEnabled]
  repeat' split
  all_goals rfl

theorem rotateWebhook_core {id publicId secretHash} :
    ((s.rotateWebhook id publicId secretHash).persisted s).core = s.core := by
  simp only [rotateWebhook]
  repeat' split
  all_goals rfl

theorem fence_core {id revision cron occurrence} (h : s.fence id revision cron occurrence = some s') :
    s'.core = s.core := by
  simp only [fence] at h
  split at h <;> cases h
  rfl

theorem insertTriggerIdentity_core {t} (h : s.insertTriggerIdentity t = .ok s') :
    s'.core = s.core := by
  simp only [insertTriggerIdentity] at h
  repeat' split at h
  all_goals cases h
  rfl

end Schedules

section Runs

theorem insertRun_core {run} (h : s.insertRun run = .ok s') :
    ∃ runs, s.core.runs.insert run = some runs ∧ s'.core = { s.core with runs } := by
  simp only [insertRun] at h
  repeat' split at h
  all_goals cases h
  case h_2.isTrue.refl hi _ => exact ⟨_, hi, rfl⟩

-- A run that belongs to no batch.
theorem queueRun_step {op entity event} {new : NewRun} (h : s₁.core = s.core)
    (hr : s₁.insertRun (new.row now) = .ok s₂) : s.core.Step op [] (s₂.appendAudit entity event).core := by
  have ⟨_, hi, hc⟩ := insertRun_core hr
  rw [core_appendAudit, hc, ← h]
  exact .queueRun ⟨rfl, rfl, rfl⟩ rfl rfl hi

theorem existingTarget_core {new} : ((s.existingTarget new).persisted s).core = s.core := by
  simp only [existingTarget]
  repeat' split
  all_goals rfl

theorem existingRun_core {new} : ((s.existingRun new).persisted s).core = s.core := by
  simp only [existingRun]
  repeat' split
  all_goals rfl

theorem createRun_step {new triggerId} :
    s.core.Step (.createRun new triggerId now) [] ((s.createRun new triggerId now).persisted s).core := by
  simp only [createRun]
  split
  case h_1 => exact existingTarget_core ▸ .unchanged
  case h_2 => exact .unchanged
  case h_3 ht =>
    split
    case h_1 => exact existingRun_core ▸ .unchanged
    case h_2 => exact .unchanged
    case h_3 hr => exact queueRun_step (insertTriggerIdentity_core ht) hr

theorem createCronOccurrence_step {new revision cron triggerId} :
    s.core.Step (.createCronOccurrence new revision cron triggerId now) []
      ((s.createCronOccurrence new revision cron triggerId now).persisted s).core := by
  simp only [createCronOccurrence]
  repeat' split
  any_goals exact .unchanged
  case _ hf _ _ ht _ _ _ _ _ =>
    have hc := (insertTriggerIdentity_core ht).trans (fence_core hf)
    exact hc ▸ .unchanged
  case _ hf _ _ ht _ _ hr =>
    exact queueRun_step ((insertTriggerIdentity_core ht).trans (fence_core hf)) hr

end Runs

section Batches

theorem openBatch_step {op new triggerId entity event} (h : s₁.core = s.core)
    (hb : s₁.insertBatch new triggerId now = .ok s₂) :
    s.core.Step op [] (s₂.appendAudit entity event).core := by
  simp only [insertBatch] at hb
  repeat' split at hb
  all_goals cases hb
  case h_2.refl hi =>
    rw [← h]
    exact .openBatch rfl rfl hi

theorem createCronBatch_step {new revision cron triggerId} :
    s.core.Step (.createCronBatch new revision cron triggerId now) []
      ((s.createCronBatch new revision cron triggerId now).persisted s).core := by
  simp only [createCronBatch]
  repeat' split
  any_goals exact .unchanged
  case _ hf _ _ ht _ _ hb =>
    exact openBatch_step ((insertTriggerIdentity_core ht).trans (fence_core hf)) hb

theorem createBatch_step {new triggerId} :
    s.core.Step (.createBatch new triggerId now) []
      ((s.createBatch new triggerId now).persisted s).core := by
  simp only [createBatch]
  repeat' split
  any_goals exact .unchanged
  case _ ht _ _ hb => exact openBatch_step (insertTriggerIdentity_core ht) hb

theorem retriggerBatchSnapshot_step {source new scheduledAt triggerId} :
    s.core.Step (.retriggerBatchSnapshot source new scheduledAt triggerId now) []
      ((s.retriggerBatchSnapshot source new scheduledAt triggerId now).persisted s).core := by
  simp only [retriggerBatchSnapshot]
  repeat' split
  any_goals exact .unchanged
  case _ ht _ _ hb => exact openBatch_step (insertTriggerIdentity_core ht) hb

end Batches

section Ingestion

theorem claimCollectionBatch_step {batchId owner lease token} :
    s.core.Step (.claimCollectionBatch batchId owner lease token now) []
      ((s.claimCollectionBatch batchId owner lease token now).persisted s).core := by
  simp only [claimCollectionBatch]
  split
  case isTrue => exact .unchanged
  case isFalse =>
    refine .ingest _ _ ?_ fun b hp => ⟨?_, rfl, .inl rfl⟩
    case refine_1 => exact fun _ => rfl
    cases hs : b.state <;> simp_all [BatchState.isIngesting]

theorem renewCollectionLease_step {batchId token lease} :
    s.core.Step (.renewCollectionLease batchId token lease now) []
      ((s.renewCollectionLease batchId token lease now).persisted s).core := by
  simp only [renewCollectionLease]
  refine .ingest _ _ ?_ fun b hp => ?_
  case refine_1 => exact fun _ => rfl
  have hs : b.state = .collecting := by simp_all
  simp [hs, BatchState.isIngesting]

theorem failBatch_step {batchId code} :
    s.core.Step (.failBatch batchId code) [] ((s.failBatch batchId code).persisted s).core := by
  simp only [failBatch]
  repeat' split
  any_goals exact .unchanged
  refine .ingest _ _ ?_ fun b hp => ⟨?_, rfl, .inr rfl⟩
  case refine_1 => exact fun _ => rfl
  cases hs : b.state <;> simp_all [BatchState.isIngesting]

theorem admitItem_eq {batchId counts item r} (h : s.admitItem batchId counts item = .ok r) :
    r.1 = s ∨ ∃ d ∈ s.batchItems, d.batchId = batchId ∧ !d.state.isExecution ∧
      r.1 = { s with
        batchItems := s.batchItems.update (·.id = d.id) ({ · with
          state := .invalid, failureCode := some "collection_duplicate_key" })
      } := by
  simp only [admitItem] at h
  repeat' split at h
  all_goals cases h
  any_goals exact .inl rfl
  case _ d hd _ _ _ _ hc =>
    right
    have hm : d ∈ s.itemsInOrder _ := List.mem_of_mem_head? hd
    rw [itemsInOrder, List.mem_insertionSort, Table.mem_select] at hm
    refine ⟨d, hm.left, by simp_all, ?_, rfl⟩
    cases hs : d.state <;> simp_all [PageCounts.reclassifyAsInvalid, BatchItemState.isExecution]

theorem insertBatchItem_eq {batchId item} (h : s.insertBatchItem batchId item now = .ok s') :
    ∃ row items, row.batchId = batchId ∧ row.runId = none ∧ row.state = item.state ∧
      s.batchItems.insert row = some items ∧ s' = { s with batchItems := items } := by
  simp only [insertBatchItem] at h
  repeat' split at h
  all_goals cases h
  case _ hi => exact ⟨_, _, rfl, rfl, rfl, hi, rfl⟩

theorem PageCounts.observe_isSome {counts counts' : PageCounts} {st : BatchItemState}
    (h : counts.observe st = some counts') : !st.isExecution := by
  cases st <;> simp_all [PageCounts.observe, BatchItemState.isExecution]

theorem insertItems_eq {batchId items counts r}
    (h : insertItems batchId now counts s items = .ok r) :
    ∃ batchItems, Core.Collects batchId s.batchItems batchItems ∧ r.1 = { s with batchItems } := by
  induction items generalizing s counts
  case nil =>
    cases h
    exact ⟨_, .refl, rfl⟩
  case cons item items hi =>
    simp only [insertItems] at h
    repeat' split at h
    any_goals contradiction
    case _ ha _ _ ho _ _ hb =>
      have ⟨row, _, hw, hr, hs, hn, he⟩ := insertBatchItem_eq hb
      have ⟨batchItems, hc, h⟩ := hi h
      subst he
      have hc : Core.Collects batchId _ batchItems :=
        .add hw hr (hs ▸ PageCounts.observe_isSome ho) hn hc
      obtain rfl | ⟨d, hm, hd, hx, rfl⟩ := admitItem_eq ha
      case inl => exact ⟨batchItems, hc, h⟩
      case inr => exact ⟨batchItems, .invalidate hm hd hx hc, h⟩

theorem insertCollectionPage_core {page} (h : s.insertCollectionPage page now = .ok s') :
    s'.core = s.core := by
  simp only [insertCollectionPage] at h
  repeat' split at h
  all_goals cases h
  rfl

theorem commitCollectionPage_step {page} :
    s.core.Step (.commitCollectionPage page now) []
      ((s.commitCollectionPage page now).persisted s).core := by
  simp only [commitCollectionPage]
  repeat' split
  any_goals exact .unchanged
  case _ batch hb _ hs _ _ _ _ _ s₁ hp _ s₂ counts hi =>
    have hp := insertCollectionPage_core hp
    obtain ⟨batchItems, hc, rfl⟩ := insertItems_eq hi
    rw [← hp]
    refine .collect _ ?_ (fun b => ⟨rfl, rfl⟩) (?_ : s₁.core.batches.get? page.batchId = some batch) ?_ hc
    case refine_1 => exact fun _ => rfl
    case refine_2 => rw [hp]; exact hb
    case refine_3 => simp_all

theorem core_queueItem {itemId runId entity event} :
    Store.core { s.appendAudit entity event with
      batchItems := s.batchItems.update (fun i => i.id = itemId && i.state = .ready) fun i =>
        { i with state := .queued, runId := some runId }
    } = s.core.queueItem itemId runId :=
  rfl

theorem materializeItems_core {batch newId items}
    (h : materializeItems batch newId now s items = .ok s') :
    Core.Materializes batch items s.core s'.core := by
  induction items generalizing s
  case nil =>
    cases h
    exact .nil
  case cons item items hi =>
    simp only [materializeItems] at h
    split at h
    case h_1 => contradiction
    case h_2 s₁ hm =>
      simp only [materializeItem] at hm
      repeat' split at hm
      all_goals cases hm
      case _ hr =>
        obtain ⟨runs, hr, hc⟩ := insertRun_core hr
        refine .cons ⟨rfl, rfl, rfl⟩ rfl rfl hr ?_
        have hi := hi h
        rwa [core_queueItem, hc] at hi

theorem finalizeBatch_step {batchId token newId} :
    s.core.Step (.finalizeBatch batchId token newId now) []
      ((s.finalizeBatch batchId token newId now).persisted s).core := by
  simp only [finalizeBatch]
  repeat' split
  any_goals exact .unchanged
  all_goals
    case _ batch hb _ hs hc _ s₁ hm =>
      obtain rfl : batch.id = batchId := Table.key_of_get? hb
      refine .finalize ?_ hb (by simp_all) ?_ ?_ (materializeItems_core hm) ?_
      case refine_1 =>
        intro he
        by_contra hq
        split at he
        case isTrue => contradiction
        case isFalse => simp at he
      case refine_2 => exact (List.perm_insertionSort _ _).map _ |>.nodup_iff.mpr Table.select_nodup
      case refine_3 => simp [readyItems, itemsInOrder, List.mem_insertionSort, core]
      case refine_4 =>
        by_cases hn : s.readyItems batch.id = []
        case neg => simp [hn]
        case pos =>
          refine .inr ⟨hn, ?_⟩
          by_cases hq : 0 < batch.quarantined <;> simp [hn, hq, BatchState.isCompleted]

theorem countCancelled_attempts {runs : List Run} :
    (s.countCancelled runs now).attempts = s.attempts :=
  congrArg Core.attempts <| foldl_core (f := countCancelled.countGroup runs now) fun _ _ => rfl

theorem cancelBatch_cases (s : Store) (batchId : Uuid) (now : Time) :
    (∃ e, s.cancelBatch batchId now = .error e) ∨
    ∃ batch r, s.batches.get? batchId = some batch ∧ batch.state.isOpen ∧
      s.cancelBatch batchId now = .ok r ∧ r.2.core = s.core.cancelBatch batchId := by
  simp only [cancelBatch]
  split
  case isFalse => exact .inl ⟨_, rfl⟩
  case isTrue h =>
    obtain ⟨batch, hm, hb⟩ := List.any_eq_true.mp h
    rw [Bool.and_eq_true, decide_eq_true_eq] at hb
    obtain ⟨rfl, ho⟩ := hb
    exact .inr ⟨batch, _, Table.get?_of_mem hm, ho, rfl, Core.ext rfl countCancelled_attempts rfl rfl⟩

theorem cancelBatch_step {batchId} :
    s.core.Step (.cancelBatch batchId now) [] ((s.cancelBatch batchId now).persisted s).core := by
  obtain ⟨_, he⟩ | ⟨batch, r, hb, ho, he, hc⟩ := s.cancelBatch_cases batchId now
  case inl =>
    rw [he]
    exact .unchanged
  case inr =>
    rw [he, Transaction.persisted_ok, hc]
    exact .cancelBatch hb ho

end Ingestion

section Attempts

theorem createAttempt_step {runId agentId lease id token} :
    s.core.Step (.createAttempt runId agentId lease id token now) []
      ((s.createAttempt runId agentId lease id token now).persisted s).core := by
  simp only [createAttempt]
  repeat' split
  any_goals exact .unchanged
  case _ run hr hq _ attempts hi =>
    simp only [Transaction.persisted_commit, core_appendAudit, core_syncBatchRunState]
    exact .offer (a := s.newAttempt runId agentId lease id token now) hr (by simpa using hq) rfl rfl rfl hi

theorem releaseOffer_step {id} :
    s.core.Step (.releaseOffer id) [] ((s.releaseOffer id).persisted s).core := by
  simp only [releaseOffer]
  repeat' split
  any_goals exact .unchanged
  case _ a ha ho =>
    simp only [Transaction.persisted_commit, requeueRun, core_syncBatchRunState]
    exact .release ha (by simpa using ho)

theorem rejectOffer_step {id token result encrypted} :
    s.core.Step (.rejectOffer id token result encrypted now) []
      ((s.rejectOffer id token result encrypted now).persisted s).core := by
  simp only [rejectOffer]
  repeat' split
  any_goals exact .unchanged
  case _ a ha ho =>
    simp only [Transaction.persisted_commit, requeueRun, core_appendAudit, core_syncBatchRunState]
    simp only [Bool.or_eq_true, decide_eq_true_eq, not_or, not_not] at ho
    exact .reject ha ho.right ho.left

theorem acceptAttempt_cases (s : Store) (id : Uuid) (token : String) (lease : Nat) (now : Time) :
    (∃ e, s.acceptAttempt id token lease now = .error e) ∨
    ∃ a s', s.attempts.get? id = some a ∧ s.acceptAttempt id token lease now = .ok ((), s') ∧
      s.core.Step (.acceptAttempt id token lease now) [.accepted id a.runId] s'.core := by
  simp only [acceptAttempt]
  repeat' split
  any_goals exact .inl ⟨_, rfl⟩
  case _ a ha ho =>
    simp only [Bool.or_eq_true, decide_eq_true_eq, not_or, not_not, Bool.not_eq_true',
      Bool.not_eq_false] at ho
    have h : s.core.Step (.acceptAttempt id token lease now) _ _ := .accept ha ho.right ho.left rfl
    rw [Core.setRun_any] at h
    exact .inr ⟨a, _, ha, rfl, h⟩

theorem acceptAttempt_step {id token lease} :
    s.core.Step (.acceptAttempt id token lease now) (s.observe (.acceptAttempt id token lease now))
      ((s.acceptAttempt id token lease now).persisted s).core := by
  obtain ⟨_, he⟩ | ⟨a, _, ha, he, h⟩ := s.acceptAttempt_cases id token lease now
  case inl => simpa [observe, he] using .unchanged
  case inr => simpa [observe, he, ha] using h

theorem renewAttempts_step {agentId ids lease running} :
    s.core.Step (.renewAttempts agentId ids lease running now) []
      ((s.renewAttempts agentId ids lease running now).persisted s).core := by
  simp only [renewAttempts]
  refine .renew _ (fun a _ ha => ?_) _
  simp only [List.any_eq_true, renewable] at ha
  simp_all

theorem reauthorizeAttempt_step {id agentId token lease} :
    s.core.Step (.reauthorizeAttempt id agentId token lease now) []
      ((s.reauthorizeAttempt id agentId token lease now).persisted s).core := by
  simp only [reauthorizeAttempt]
  repeat' split
  any_goals exact .unchanged
  case _ a ha ho =>
    refine .renew _ (fun b hb hi => ?_) _
    obtain rfl : b = a := Table.key_injOn hb (Table.mem_of_get? ha) <|
      (of_decide_eq_true hi).trans (Table.key_of_get? ha).symm
    simp_all

theorem claimExpiredAttempt_step {id grace} :
    s.core.Step (.claimExpiredAttempt id grace now) []
      ((s.claimExpiredAttempt id grace now).persisted s).core := by
  simp only [claimExpiredAttempt]
  repeat' split
  any_goals exact .unchanged
  case _ a ha ho => exact .expire ha (by simp_all)

theorem cancelRun_step {runId} :
    s.core.Step (.cancelRun runId now) [] ((s.cancelRun runId now).persisted s).core := by
  simp only [cancelRun]
  repeat' split
  any_goals exact .unchanged
  case _ run hr ht =>
    simp only [Transaction.persisted_commit, core_appendAudit, core_syncBatchRunState]
    exact .cancelRun hr (by cases hs : run.state <;> simp_all [RunState.isActive, RunState.isTerminal])

theorem retryRun_cases (s : Store) (runId : Uuid) (now : Time) :
    (∃ e, s.retryRun runId now = .error e) ∨
    ∃ s', s.retryRun runId now = .ok ((), s') ∧
      s.core.Step (.retryRun runId now) [.retried runId] s'.core := by
  obtain ⟨_, hd⟩ := s.decrementFailedRollup_eq runId now
  simp only [retryRun, hd]
  split
  case isFalse => exact .inl ⟨_, rfl⟩
  case isTrue h =>
    obtain ⟨run, hm, hr⟩ := List.any_eq_true.mp h
    rw [Bool.and_eq_true, decide_eq_true_eq, decide_eq_true_eq] at hr
    obtain ⟨rfl, hs⟩ := hr
    refine .inr ⟨_, rfl, ?_⟩
    rw [core_appendAudit, core_syncBatchRunState]
    have hr : s.core.runs.get? run.id = some run := Table.get?_of_mem hm
    exact .retryRun hr hs

theorem retryRun_step {runId} :
    s.core.Step (.retryRun runId now) (s.observe (.retryRun runId now))
      ((s.retryRun runId now).persisted s).core := by
  obtain ⟨_, he⟩ | ⟨_, he, h⟩ := s.retryRun_cases runId now
  case inl => simpa [observe, he] using .unchanged
  case inr => simpa [observe, he] using h

theorem core_applyResult {attempt run result encrypted random} :
    (s.applyResult attempt run result encrypted random now).core =
      (s.core.setAttempt attempt.id (·.recordResult .finished result encrypted)
        |>.setRun run.id (fun _ => true) ({ · with
          state := run.stateAfter result.outcome, notBefore := now + .seconds (run.backoffSeconds random) })
        |>.sync run.id (run.stateAfter result.outcome)) := by
  simp only [applyResult, core_appendAudit, core_syncBatchRunState, Core.setRun_any]
  rfl

-- The states in which `finish_attempt` and `finish_expired_attempt` look at a result.
def Concludable (expired : Bool) (st : AttemptState) : Prop :=
  if expired then st = .expiring else st ≠ .expiring ∧ st ≠ .finished ∧ st ≠ .lateResult

theorem concludable {expired : Bool} {st : AttemptState} (h₁ : ¬(expired && st ≠ .expiring))
    (h₂ : ¬(!expired && st = .expiring)) (h₃ : ¬(st = .finished || st = .lateResult)) :
    Concludable expired st := by
  cases expired <;> simp_all [Concludable]

theorem finishAttemptInner_concludes {id token result encrypted expired random} {r}
    (h : s.finishAttemptInner id token result encrypted expired random now = .ok r) :
    r.2 = s ∨ ∃ a, a.id = id ∧ s.core.Concludes a result.outcome (Concludable expired) r.2.core := by
  simp only [finishAttemptInner] at h
  repeat' split at h
  all_goals cases h
  any_goals exact .inl rfl
  case _ a ha _ run hr _ h₁ h₂ h₃ hs =>
    obtain rfl : a.id = id := Table.key_of_get? ha
    exact .inr ⟨a, rfl, .late ha (concludable h₁ h₂ h₃) hr hs⟩
  case _ a ha _ run hr _ h₁ h₂ h₃ hs =>
    obtain rfl : a.id = id := Table.key_of_get? ha
    exact .inr ⟨a, rfl, core_applyResult ▸ .applied ha (concludable h₁ h₂ h₃) hr hs⟩

theorem finishAttempt_cases (s : Store) (id : Uuid) (token : String) (result : ExecutionResult)
    (encrypted : Sealed ExecutionResult) (random : Nat) (now : Time) :
    (s.finishAttempt id token result encrypted random now).persisted s = s ∨
    ∃ a, a.id = id ∧ s.core.Concludes a result.outcome (Concludable false)
      ((s.finishAttempt id token result encrypted random now).persisted s).core := by
  simp only [finishAttempt]
  repeat' split
  any_goals exact .inl rfl
  case _ h => exact finishAttemptInner_concludes h

theorem finishAttempt_step {id token result encrypted random} :
    s.core.Step (.finishAttempt id token result encrypted random now)
      (s.observe (.finishAttempt id token result encrypted random now))
      ((s.finishAttempt id token result encrypted random now).persisted s).core := by
  obtain h | ⟨a, rfl, h⟩ := s.finishAttempt_cases id token result encrypted random now
  case inl =>
    have ho : s.observe (.finishAttempt id token result encrypted random now) = [] := by
      simp only [observe, exec, h]
      cases s.attempts.get? id <;> simp
    rw [ho, h]
    exact .unchanged
  case inr =>
    have ho : s.observe (.finishAttempt a.id token result encrypted random now) =
        [.executed a.id a.runId] := by
      have ha : s.attempts.get? a.id = some a := h.attempt
      obtain ⟨b, hb, hc⟩ := h.concluded
      have hn : a.state.isConcluded = false := by
        have hp : a.state ≠ .expiring ∧ a.state ≠ .finished ∧ a.state ≠ .lateResult := h.state
        cases hs : a.state <;> simp_all [AttemptState.isConcluded]
      simp only [core_attempts] at hb
      simp [observe, exec, ha, hb, hn, hc]
    rw [ho]
    exact .finish h

theorem finishExpiredAttempt_step {id token result encrypted random} :
    s.core.Step (.finishExpiredAttempt id token result encrypted random now) []
      ((s.finishExpiredAttempt id token result encrypted random now).persisted s).core := by
  unfold finishExpiredAttempt
  cases h : s.finishAttemptInner id token result encrypted true random now
  case error => exact .unchanged
  case ok r =>
    obtain ⟨_, s'⟩ := r
    obtain rfl | ⟨a, rfl, hc⟩ := finishAttemptInner_concludes h
    case inl => exact .unchanged
    case inr => exact .finishExpired hc

end Attempts

section Health

theorem insertEvidence_core {e id} (h : s.insertEvidence e id now = .ok s') : s'.core = s.core := by
  simp only [insertEvidence] at h
  repeat' split at h
  all_goals cases h
  all_goals rfl

theorem ensureNodeHealth_core {agentId r} (h : s.ensureNodeHealth agentId now = .ok r) :
    r.2.core = s.core := by
  simp only [ensureNodeHealth] at h
  repeat' split at h
  all_goals cases h
  all_goals rfl

theorem rescoreNode_core {order agentId} (h : s.rescoreNode order agentId now = .ok s') :
    s'.core = s.core := by
  simp only [rescoreNode] at h
  split at h
  case h_1 => contradiction
  case h_2 he =>
    cases h
    have he := ensureNodeHealth_core he
    repeat' split
    all_goals exact he

theorem rescoreNodes_core {order agents} (h : rescoreNodes order now s agents = .ok s') :
    s'.core = s.core := by
  induction agents generalizing s
  case nil =>
    cases h
    rfl
  case cons agentId agents hi =>
    simp only [rescoreNodes] at h
    split at h
    case h_1 => contradiction
    case h_2 hr => exact (hi h).trans (rescoreNode_core hr)

theorem setNodeManualQuarantine_core {agentId quarantined} :
    ((s.setNodeManualQuarantine agentId quarantined now).persisted s).core = s.core := by
  simp only [setNodeManualQuarantine]
  split
  case h_1 => rfl
  case h_2 he =>
    split
    case isTrue => rfl
    case isFalse => exact ensureNodeHealth_core he

theorem grantInputProbe_core {digest fingerprint} :
    ((s.grantInputProbe digest fingerprint now).persisted s).core = s.core := by
  simp only [grantInputProbe]
  split <;> rfl

theorem consumeProbeOrIsHeld_core {digest fingerprint} :
    ((s.consumeProbeOrIsHeld digest fingerprint now).persisted s).core = s.core := by
  simp only [consumeProbeOrIsHeld]
  repeat' split
  all_goals rfl

theorem confirmBatchPoison_core {batchId n} : (s.confirmBatchPoison batchId n).core = { s.core with
      batches := s.core.batches.update (·.id = batchId) fun b =>
        { b with poisonedItemCount := b.poisonedItemCount + n, state := s.core.drained b }
    } := by
  refine Core.ext rfl rfl (Table.ext ?_) rfl
  simp only [confirmBatchPoison, core_batches, appendAudit_batches, Table.update, List.map_map]
  refine List.map_congr_left fun b _ => ?_
  by_cases hi : b.id = batchId
  case neg => simp [hi]
  case pos =>
    subst hi
    simp only [Function.comp_apply, decide_true, if_true, Bool.true_and, Core.drained]
    split <;> simp_all

-- Batches are confirmed one after the other; what happens to one depends on its own runs only.
theorem foldl_confirm_core {hits : List BatchItem} {ids : List Uuid} (nd : ids.Nodup) :
    (ids.foldl (reconcileConfirmedCollectionItems.confirm hits) s).core = { s.core with
      batches := s.core.batches.update (·.id ∈ ids) fun b =>
        { b with
          poisonedItemCount := b.poisonedItemCount + hits.countP (·.batchId = b.id)
          state             := s.core.drained b
        }
    } := by
  have h : (ids.foldl (reconcileConfirmedCollectionItems.confirm hits) s).core = { s.core with
        batches := ids.foldl (fun t k => t.update (Keyed.key · = k) fun b => { b with
            poisonedItemCount := b.poisonedItemCount + hits.countP (·.batchId = k)
            state             := s.core.drained b
          }) s.core.batches
      } := by
    clear nd
    induction ids generalizing s
    case nil => rfl
    case cons id ids hi =>
      rw [List.foldl_cons, List.foldl_cons, hi, reconcileConfirmedCollectionItems.confirm, confirmBatchPoison_core]
      rfl
  rw [h, Table.foldl_update _ nd]
  rfl

theorem reconcileConfirmedCollectionItems_core {digest fingerprint} :
    (s.reconcileConfirmedCollectionItems digest fingerprint).core =
      s.core.poison (s.hasEvidence digest fingerprint) := by
  simp only [reconcileConfirmedCollectionItems]
  rw [foldl_confirm_core (List.nodup_dedup _), foldl_core fun _ _ => core_appendAudit]
  rfl

theorem confirmPoison_core {digest fingerprint} :
    (s.confirmPoison digest fingerprint).core = s.core.poison (s.hasEvidence digest fingerprint) := by
  rw [confirmPoison, reconcileConfirmedCollectionItems_core]
  congr 1
  funext runId
  simp only [hasEvidence, Table.update, List.any_map]
  congr 1
  funext e
  simp only [Function.comp_apply]
  split <;> rfl

theorem recordHealthEvidence_core {e nodes id order r}
    (h : s.recordHealthEvidence e nodes id order now = .ok r) :
    ∃ s₁, s.insertEvidence e id now = .ok s₁ ∧
      r.1 = (s₁.evaluateInput e.blueprintDigest e.inputFingerprint nodes).state ∧
      r.2.core =
        if r.1 = .confirmed then s.core.poison (s₁.hasEvidence e.blueprintDigest e.inputFingerprint)
        else s.core := by
  simp only [recordHealthEvidence] at h
  split at h
  case h_1 => contradiction
  case h_2 s₁ hi =>
    split at h
    case h_1 => contradiction
    case h_2 hr =>
      cases h
      refine ⟨s₁, hi, rfl, ?_⟩
      rw [rescoreNodes_core hr, ← insertEvidence_core hi, apply_ite core, core_appendAudit, ite_self,
        apply_ite core, confirmPoison_core]
      rfl

theorem recordHealthEvidence_step {e nodes id order} :
    s.core.Step (.recordHealthEvidence e nodes id order now) []
      ((s.recordHealthEvidence e nodes id order now).persisted s).core := by
  cases h : s.recordHealthEvidence e nodes id order now
  case error => exact .unchanged
  case ok r =>
    have ⟨s₁, _, _, hc⟩ := recordHealthEvidence_core h
    obtain ⟨_, s'⟩ := r
    rw [Transaction.persisted_ok, hc]
    split
    case isTrue => exact .poison _
    case isFalse => exact .unchanged

end Health

theorem exec_step (s : Store) (op : Op) : s.core.Step op (s.observe op) (s.exec op).core := by
  cases op
  case createSchedule => exact createSchedule_core ▸ .unchanged
  case updateSchedule => exact updateSchedule_core ▸ .unchanged
  case setScheduleEnabled => exact setScheduleEnabled_core ▸ .unchanged
  case rotateWebhook => exact rotateWebhook_core ▸ .unchanged
  case advanceCronCursor => exact .unchanged
  case createRun => exact createRun_step
  case createCronOccurrence => exact createCronOccurrence_step
  case createCronBatch => exact createCronBatch_step
  case createBatch => exact createBatch_step
  case retriggerBatchSnapshot => exact retriggerBatchSnapshot_step
  case claimCollectionBatch => exact claimCollectionBatch_step
  case renewCollectionLease => exact renewCollectionLease_step
  case commitCollectionPage => exact commitCollectionPage_step
  case finalizeBatch => exact finalizeBatch_step
  case failBatch => exact failBatch_step
  case cancelBatch => exact cancelBatch_step
  case createAttempt => exact createAttempt_step
  case releaseOffer => exact releaseOffer_step
  case rejectOffer => exact rejectOffer_step
  case acceptAttempt => exact acceptAttempt_step
  case renewAttempts => exact renewAttempts_step
  case reauthorizeAttempt => exact reauthorizeAttempt_step
  case finishAttempt => exact finishAttempt_step
  case finishExpiredAttempt => exact finishExpiredAttempt_step
  case claimExpiredAttempt => exact claimExpiredAttempt_step
  case cancelRun => exact cancelRun_step
  case retryRun => exact retryRun_step
  case recordHealthEvidence => exact recordHealthEvidence_step
  case grantInputProbe => exact grantInputProbe_core ▸ .unchanged
  case consumeProbeOrIsHeld => exact consumeProbeOrIsHeld_core ▸ .unchanged
  case setNodeManualQuarantine => exact setNodeManualQuarantine_core ▸ .unchanged
  case upsertAgent => exact .unchanged
  case disconnectAgent => exact .unchanged

end Store

end Scheduler
