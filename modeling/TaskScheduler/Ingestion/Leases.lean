import TaskScheduler.Ingestion.Chain

namespace Scheduler

namespace Core

variable {c c₁ c' : Core}

-- The lease of a batch that collects has an end.
def Leased (c : Core) : Prop :=
  ∀ b ∈ c.batches, b.state = .collecting → b.leaseExpiresAt.isSome

namespace Leased

theorem of_eq (h : c.Leased) (hb : c'.batches = c.batches) : c'.Leased :=
  fun b hm => h b (hb ▸ hm)

theorem of_update {p : Batch → Bool} {f : Batch → Batch} (h : c.Leased)
    (hb : c'.batches.rows = c.batches.rows.map fun b => if p b then f b else b)
    (hf : ∀ b, p b → (f b).state = .collecting → (f b).leaseExpiresAt.isSome ∨
      b.state = .collecting ∧ (f b).leaseExpiresAt = b.leaseExpiresAt) : c'.Leased := by
  intro b' hb' hs
  rw [← Table.mem_rows, hb] at hb'
  have ⟨b, hm, he⟩ := List.mem_map.mp hb'
  split at he
  case isTrue hp =>
    subst he
    rcases hf b hp hs with hl | ⟨hc, hl⟩
    case inl => exact hl
    case inr => exact hl ▸ h b hm hc
  case isFalse =>
    subst he
    exact h b hm hs

theorem sync {r : Uuid} {st : RunState} (h : c.Leased) (hb : c₁.batches = c.batches) :
    (c₁.sync r st).Leased := by
  have h := h.of_eq hb
  simp only [Core.sync]
  split
  case h_1 => exact h
  case h_2 =>
    refine h.of_update rfl fun b _ hs => .inr ⟨?_, rfl⟩
    simp only [Batch.withState] at hs
    rcases c₁.settled_cases b st with he | ⟨-, he | he⟩
    case inl => exact he ▸ hs
    case inr.inl => simp [he] at hs
    case inr.inr => simp [hs, BatchState.isCompleted] at he

theorem poison (h : c.Leased) {poisoned : Uuid → Bool} : (c.poison poisoned).Leased := by
  refine h.of_update rfl fun b _ hs => .inr ⟨?_, rfl⟩
  rcases (c.failPoisoned poisoned).drained_cases b with he | ⟨-, he⟩
  case inl => exact he ▸ hs
  case inr => simp [he] at hs

theorem concludes (h : c.Leased) {a : Attempt} {outcome} {p} (hc : Concludes c a outcome p c') :
    c'.Leased := by
  cases hc
  case late => exact h.of_eq rfl
  case applied => exact h.sync rfl

theorem finalize (h : c.Leased) {batch : Batch} {items : List BatchItem} {state : BatchState}
    {now : Time} (hm : Materializes batch items c c₁) (hc : state.isIngesting = false) :
    (c₁.closeIngestion batch.id state now).Leased := by
  refine (h.of_eq hm.batches).of_update rfl fun b _ hs => absurd hc ?_
  simp only at hs
  simp [hs, BatchState.isIngesting]

end Leased

end Core

namespace Store

variable {s s' : Store} {now : Time}

theorem Opens.leased (h : s.core.Leased) (ho : s.Opens s') : s'.core.Leased := by
  rcases ho with he | ⟨new, triggerId, now, batches, hi, he⟩
  case inl => exact he ▸ h
  case inr =>
    intro b hb hs
    rw [he] at hb
    rcases (Table.mem_of_insert hi).mp hb with hb | rfl
    case inl => exact h b hb hs
    case inr => cases hs

theorem finalizeBatch_leased {batchId token newId} (h : s.core.Leased) :
    ((s.finalizeBatch batchId token newId now).persisted s).core.Leased := by
  simp only [finalizeBatch]
  repeat' split
  any_goals exact h
  all_goals
    case _ batch hb _ hs hc _ s₁ hm =>
      obtain rfl : batch.id = batchId := Table.key_of_get? hb
      refine h.finalize (materializeItems_core hm) ?_
      repeat' split
      all_goals rfl

theorem commitCollectionPage_leased {page} (h : s.core.Leased) :
    ((s.commitCollectionPage page now).persisted s).core.Leased := by
  obtain ⟨-, hs⟩ | ⟨s', hs, ha⟩ := s.commitCollectionPage_cases page now
  case inl => exact hs.symm ▸ h
  case inr =>
    rw [hs]
    obtain ⟨batch, pages, items, counts, hb, ha, -, -, hu, -, -⟩ := ha
    have hr : s'.core.batches.rows = _ := congrArg Table.rows hu
    exact h.of_update hr fun b _ hs => .inr ⟨hs, rfl⟩

theorem exec_leased (h : s.core.Leased) (op : Op) : (s.exec op).core.Leased := by
  have leased_of_frame (hb : .batches ∉ op.writes) : (s.exec op).core.Leased :=
    h.of_eq <| (s.exec_frame op).batches hb
  cases op
  case createCronBatch => exact createCronBatch_opens.leased h
  case createBatch => exact createBatch_opens.leased h
  case retriggerBatchSnapshot => exact retriggerBatchSnapshot_opens.leased h
  case claimCollectionBatch =>
    simp only [exec, claimCollectionBatch]
    split
    case isTrue => exact h
    case isFalse => exact h.of_update rfl fun _ _ _ => .inl rfl
  case renewCollectionLease => exact h.of_update rfl fun _ _ _ => .inl rfl
  case commitCollectionPage => exact commitCollectionPage_leased h
  case finalizeBatch => exact finalizeBatch_leased h
  case failBatch =>
    simp only [exec, failBatch]
    repeat' split
    any_goals exact h
    exact h.of_update rfl fun _ _ => by rintro ⟨⟩
  case cancelBatch batchId now =>
    simp only [exec]
    obtain ⟨_, he⟩ | ⟨batch, r, -, -, he, hc⟩ := s.cancelBatch_cases batchId now
    case inl => exact he.symm ▸ h
    case inr =>
      rw [he, Transaction.persisted_ok, hc]
      exact h.of_update rfl fun _ _ => by rintro ⟨⟩
  case createAttempt =>
    simp only [exec, createAttempt]
    repeat' split
    any_goals exact h
    simp only [Transaction.persisted_commit, core_appendAudit, core_syncBatchRunState]
    exact h.sync rfl
  case releaseOffer =>
    simp only [exec, releaseOffer]
    repeat' split
    any_goals exact h
    simp only [Transaction.persisted_commit, requeueRun, core_syncBatchRunState]
    exact h.sync rfl
  case rejectOffer =>
    simp only [exec, rejectOffer]
    repeat' split
    any_goals exact h
    simp only [Transaction.persisted_commit, requeueRun, core_appendAudit, core_syncBatchRunState]
    exact h.sync rfl
  case finishAttempt id token result encrypted random now =>
    obtain he | ⟨a, -, hc⟩ := s.finishAttempt_cases id token result encrypted random now
    case inl =>
      rw [exec, he]
      exact h
    case inr => exact h.concludes hc
  case finishExpiredAttempt id token result encrypted random now =>
    simp only [exec, finishExpiredAttempt]
    cases hr : s.finishAttemptInner id token result encrypted true random now
    case error => exact h
    case ok r =>
      obtain he | ⟨a, -, hc⟩ := finishAttemptInner_concludes hr
      case inl => exact he ▸ h
      case inr => exact h.concludes hc
  case cancelRun =>
    simp only [exec, cancelRun]
    repeat' split
    any_goals exact h
    simp only [Transaction.persisted_commit, core_appendAudit, core_syncBatchRunState]
    exact h.sync rfl
  case retryRun runId now =>
    obtain ⟨_, hd⟩ := s.decrementFailedRollup_eq runId now
    simp only [exec, retryRun, hd]
    split
    case isFalse => exact h
    case isTrue =>
      simp only [Transaction.persisted_commit, core_appendAudit, core_syncBatchRunState]
      exact h.sync rfl
  case recordHealthEvidence e nodes id order now =>
    simp only [exec]
    cases hr : s.recordHealthEvidence e nodes id order now
    case error => exact h
    case ok r =>
      obtain ⟨_, _, _, hc⟩ := recordHealthEvidence_core hr
      rw [Transaction.persisted_ok, hc]
      split
      case isTrue => exact h.poison
      case isFalse => exact h
  all_goals exact leased_of_frame (by simp [Op.writes])

theorem Reachable.leased (h : s.Reachable) : s.core.Leased :=
  Machine.Reachable.invariant (I := fun s => s.core.Leased) (fun _ op hi _ => exec_leased hi op) h
    fun _ hb => absurd hb Table.not_mem_empty

-- Another worker can take the batch on as soon as its lease has run out.
def LeftOver (s : Store) (batchId : Uuid) : Prop :=
  ∃ b ∈ s.batches.get? batchId, b.state.isIngesting ∧
    ∀ owner leaseSeconds token now, isBlank owner = false →
      (∀ expiry ∈ b.leaseExpiresAt, expiry < now) →
        ∃ b' s', s.claimCollectionBatch batchId owner leaseSeconds token now = .ok (some b', s')

-- No batch that is still to be ingested is left behind.
theorem Reachable.leftOver (h : s.Reachable) {batchId : Uuid} {b : Batch}
    (hb : s.batches.get? batchId = some b) (hs : b.state.isIngesting) : s.LeftOver batchId := by
  refine ⟨b, hb, hs, fun owner leaseSeconds token now ho he => ?_⟩
  have hm := Table.mem_of_get? hb
  have hk : b.id = batchId := Table.key_of_get? hb
  have hx : b.state = .scheduled ∨ b.state = .collecting ∧ b.leaseExpiresAt.any (· < now) := by
    cases hc : b.state
    case scheduled => exact .inl rfl
    case collecting =>
      have ⟨expiry, hl⟩ := Option.isSome_iff_exists.mp <| h.leased b hm hc
      exact .inr ⟨rfl, by simpa [hl] using he expiry hl⟩
    all_goals simp [hc, BatchState.isIngesting] at hs
  have hany : s.batches.rows.any fun b => b.id = batchId &&
      (b.state = .scheduled || (b.state = .collecting && b.leaseExpiresAt.any (· < now))) := by
    refine List.any_eq_true.mpr ⟨b, hm, ?_⟩
    simpa [hk] using hx
  simp only [claimCollectionBatch, ho, Bool.false_eq_true, if_false, hany, if_true,
    Table.get?_update, hb, Option.map_some]
  exact ⟨_, _, rfl⟩

section Limits

-- Each batch may take at least one item.
def Limited (s : Store) : Prop :=
  ∀ b ∈ s.batches, 1 ≤ b.maxItems

theorem validateBatchLimits_maxItems {new : NewBatch} (h : validateBatchLimits new = none) :
    1 ≤ new.maxItems := by
  simp only [validateBatchLimits] at h
  repeat' split at h
  all_goals first | contradiction | omega

theorem Limited.insertBatch (h : s.Limited) {s₁ s₂ : Store} {new triggerId entity event}
    (hc : s₁.core = s.core) (hb : s₁.insertBatch new triggerId now = .ok s₂)
    (hl : 1 ≤ new.maxItems) : (s₂.appendAudit entity event).Limited := by
  obtain ⟨batches, hi, rfl⟩ := insertBatch_eq hb
  have he : s₁.batches = s.batches := congrArg Core.batches hc
  intro b hm
  rcases (Table.mem_of_insert hi).mp hm with hm | rfl
  case inl => exact h b (he ▸ hm)
  case inr => exact hl

theorem Limited.exec (h : s.Limited) (l : s.core.Linked) (op : Op) : (s.exec op).Limited := by
  cases ho : op.opensBatch
  case true =>
    cases op
    case createCronBatch =>
      simp only [Store.exec, createCronBatch]
      repeat' split
      any_goals exact h
      case _ hv _ _ hf _ _ ht _ _ hb =>
        exact h.insertBatch ((insertTriggerIdentity_core ht).trans (fence_core hf)) hb
          (validateBatchLimits_maxItems hv)
    case createBatch =>
      simp only [Store.exec, createBatch]
      repeat' split
      any_goals exact h
      case _ hv _ _ _ _ _ _ ht _ _ hb =>
        exact h.insertBatch (insertTriggerIdentity_core ht) hb (validateBatchLimits_maxItems hv)
    case retriggerBatchSnapshot =>
      simp only [Store.exec, retriggerBatchSnapshot]
      repeat' split
      any_goals exact h
      case _ hv _ _ ht _ _ hb =>
        exact h.insertBatch (insertTriggerIdentity_core ht) hb (validateBatchLimits_maxItems hv)
    all_goals contradiction
  case false =>
    by_cases hw : .batchCollectionPages ∈ op.writes
    case neg =>
      intro b' hb'
      obtain ⟨b, hb, he⟩ := (exec_calm_of_not_opens l hw ho).batches.exists_left hb'
      have hm : b.maxItems = b'.maxItems := congrArg Progress.maxItems he
      exact hm ▸ h b hb
    case pos =>
      cases op
      case commitCollectionPage page now =>
        rw [Store.exec]
        obtain ⟨-, hs⟩ | ⟨s', hs, ha⟩ := s.commitCollectionPage_cases page now
        case inl => exact hs.symm ▸ h
        case inr =>
          obtain ⟨_, _, _, _, _, _, -, -, hu, -⟩ := ha
          rw [hs]
          intro b hb
          rw [Transaction.persisted_ok, hu] at hb
          obtain ⟨b₀, hm, he⟩ := Table.mem_update.mp hb
          rw [← he]
          split <;> exact h b₀ hm
      all_goals simp [Op.writes, Op.writes.concluding] at hw

theorem Reachable.limited (h : s.Reachable) : s.Limited :=
  And.right <| Machine.Reachable.invariant (I := fun s => s.core.Linked ∧ s.Limited)
    (fun _ op hi _ => ⟨linked_exec hi.left op, hi.right.exec hi.left op⟩) h
    ⟨linked_empty, fun _ hb => absurd hb Table.not_mem_empty⟩

end Limits

end Store

end Scheduler
