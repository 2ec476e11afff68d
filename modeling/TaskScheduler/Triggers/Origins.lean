import TaskScheduler.Ingestion.Chain

namespace Scheduler

-- What a run was created for. No operation changes these columns afterwards.
structure Run.Origin where
  id             : Uuid
  scheduleId     : Uuid
  triggerKind    : TriggerKind
  scheduledAt    : Time
  idempotencyKey : Option String

def Run.origin (r : Run) : Run.Origin where
  id             := r.id
  scheduleId     := r.scheduleId
  triggerKind    := r.triggerKind
  scheduledAt    := r.scheduledAt
  idempotencyKey := r.idempotencyKey

-- The runs that come out of a batch have no trigger of their own.
def Run.Origin.IsItem (o : Run.Origin) : Prop :=
  o.triggerKind = .batchItem ∧ o.idempotencyKey = none

structure Batch.Origin where
  id                : Uuid
  triggerIdentityId : Uuid
  scheduleId        : Uuid
  scheduleRevision  : Int
  triggerKind       : TriggerKind
  scheduledAt       : Time

def Batch.origin (b : Batch) : Batch.Origin where
  id                := b.id
  triggerIdentityId := b.triggerIdentityId
  scheduleId        := b.scheduleId
  scheduleRevision  := b.scheduleRevision
  triggerKind       := b.triggerKind
  scheduledAt       := b.scheduledAt

namespace Core

variable {c c' c₁ c₂ : Core} {r : Uuid} {st : RunState}

-- No trigger fired: at most a batch was given its runs.
structure Keeps (c c' : Core) : Prop where
  runs    : Table.Extends Run.origin Run.Origin.IsItem c.runs c'.runs
  batches : Table.Same Batch.origin c.batches c'.batches

namespace Keeps

theorem of_same (hr : Table.Same Run.origin c.runs c'.runs)
    (hb : Table.Same Batch.origin c.batches c'.batches) : Keeps c c' :=
  ⟨.of_same hr, hb⟩

theorem of_eq (hr : c'.runs = c.runs) (hb : c'.batches = c.batches) : Keeps c c' :=
  of_same (hr ▸ .refl) (hb ▸ .refl)

theorem refl : Keeps c c :=
  of_eq rfl rfl

theorem sync (hb : c₁.batches = c.batches) (hr : Table.Same Run.origin c.runs c₁.runs) :
    Keeps c (c₁.sync r st) := by
  refine of_same (by rwa [sync_runs]) (hb ▸ ?_)
  unfold Core.sync
  split
  case h_1 => exact .refl
  case h_2 => exact .of_update rfl fun _ _ _ => rfl

theorem cancelBatch {batchId : Uuid} : Keeps c (c.cancelBatch batchId) :=
  of_same (.of_update rfl fun _ _ _ => rfl) (.of_update rfl fun _ _ _ => rfl)

theorem poison {poisoned : Uuid → Bool} : Keeps c (c.poison poisoned) :=
  of_same (.of_update rfl fun _ _ _ => rfl) (.of_update rfl fun _ _ _ => rfl)

theorem concludes {a : Attempt} {outcome} {p} (h : Concludes c a outcome p c') : Keeps c c' := by
  cases h
  case late => exact .of_eq rfl rfl
  case applied => exact .sync rfl (.of_update rfl fun _ _ _ => rfl)

end Keeps

end Core

namespace Store

variable {s s' : Store} {now : Time}

theorem claimCollectionBatch_keeps {batchId owner lease token} :
    s.core.Keeps ((s.claimCollectionBatch batchId owner lease token now).persisted s).core := by
  simp only [claimCollectionBatch]
  split
  case isTrue => exact .refl
  case isFalse => exact .of_same .refl (.of_update rfl fun _ _ _ => rfl)

theorem renewCollectionLease_keeps {batchId token lease} :
    s.core.Keeps ((s.renewCollectionLease batchId token lease now).persisted s).core :=
  .of_same .refl (.of_update rfl fun _ _ _ => rfl)

theorem commitCollectionPage_keeps {page} :
    s.core.Keeps ((s.commitCollectionPage page now).persisted s).core := by
  have hr : ((s.commitCollectionPage page now).persisted s).runs = s.runs :=
    (s.exec_frame (.commitCollectionPage page now)).runs (by simp [Op.writes])
  obtain ⟨-, hs⟩ | ⟨s', hs, ha⟩ := s.commitCollectionPage_cases page now
  case inl => exact hs.symm ▸ .refl
  case inr =>
    rw [hs, Transaction.persisted_ok] at hr ⊢
    obtain ⟨_, _, _, _, -, -, -, -, hb, -⟩ := ha
    refine .of_same (by rw [core_runs, core_runs, hr]; exact .refl) ?_
    rw [core_batches, core_batches, hb]
    exact .of_update rfl fun _ _ _ => rfl

theorem failBatch_keeps {batchId code} :
    s.core.Keeps ((s.failBatch batchId code).persisted s).core := by
  simp only [failBatch]
  repeat' split
  any_goals exact .refl
  exact .of_same .refl (.of_update rfl fun _ _ _ => rfl)

theorem materializeItem_runs {batch item runId}
    (h : s.materializeItem batch item runId now = .ok s') :
    Table.Extends Run.origin Run.Origin.IsItem s.runs s'.runs := by
  simp only [materializeItem] at h
  split at h
  case h_2 => contradiction
  case h_1 =>
    split at h
    case h_1 => contradiction
    case h_2 hr =>
      cases h
      obtain ⟨runs, hi, rfl⟩ := insertRun_eq hr
      refine ⟨_, (congrArg (List.map Run.origin) (Table.rows_of_insert hi)).trans List.map_append, ?_⟩
      exact List.forall_mem_singleton.mpr ⟨rfl, rfl⟩

theorem materializeItems_runs {batch newId items}
    (h : materializeItems batch newId now s items = .ok s') :
    Table.Extends Run.origin Run.Origin.IsItem s.runs s'.runs := by
  induction items generalizing s
  case nil =>
    cases h
    exact .of_same .refl
  case cons item items hi =>
    simp only [materializeItems] at h
    split at h
    case h_1 => contradiction
    case h_2 hm => exact (materializeItem_runs hm).trans (hi h)

theorem finalizeBatch_keeps {batchId token newId} :
    s.core.Keeps ((s.finalizeBatch batchId token newId now).persisted s).core := by
  simp only [finalizeBatch]
  repeat' split
  any_goals exact .refl
  all_goals
    case _ hm =>
      have hb := (materializeItems_core hm).batches
      constructor
      case runs =>
        have hr := materializeItems_runs hm
        exact hr
      case batches =>
        rw [← hb]
        exact .of_update rfl fun _ _ _ => rfl

theorem cancelBatch_keeps {batchId} : s.core.Keeps ((s.cancelBatch batchId now).persisted s).core := by
  obtain ⟨_, he⟩ | ⟨batch, r, -, -, he, hc⟩ := s.cancelBatch_cases batchId now
  case inl =>
    rw [he]
    exact .refl
  case inr =>
    rw [he, Transaction.persisted_ok, hc]
    exact .cancelBatch

theorem createAttempt_keeps {runId agentId lease id token} :
    s.core.Keeps ((s.createAttempt runId agentId lease id token now).persisted s).core := by
  simp only [createAttempt]
  repeat' split
  any_goals exact .refl
  simp only [Transaction.persisted_commit, core_appendAudit, core_syncBatchRunState]
  exact .sync rfl (.of_update rfl fun _ _ _ => rfl)

theorem releaseOffer_keeps {id} : s.core.Keeps ((s.releaseOffer id).persisted s).core := by
  simp only [releaseOffer]
  repeat' split
  any_goals exact .refl
  simp only [Transaction.persisted_commit, requeueRun, core_syncBatchRunState]
  exact .sync rfl (.of_update rfl fun _ _ _ => rfl)

theorem rejectOffer_keeps {id token result encrypted} :
    s.core.Keeps ((s.rejectOffer id token result encrypted now).persisted s).core := by
  simp only [rejectOffer]
  repeat' split
  any_goals exact .refl
  simp only [Transaction.persisted_commit, requeueRun, core_appendAudit, core_syncBatchRunState]
  exact .sync rfl (.of_update rfl fun _ _ _ => rfl)

theorem acceptAttempt_keeps {id token lease} :
    s.core.Keeps ((s.acceptAttempt id token lease now).persisted s).core := by
  simp only [acceptAttempt]
  repeat' split
  any_goals exact .refl
  exact .of_same (.of_update rfl fun _ _ _ => rfl) .refl

theorem finishAttempt_keeps {id token result encrypted random} :
    s.core.Keeps ((s.finishAttempt id token result encrypted random now).persisted s).core := by
  obtain h | ⟨a, -, h⟩ := s.finishAttempt_cases id token result encrypted random now
  case inl =>
    rw [h]
    exact .refl
  case inr => exact .concludes h

theorem finishExpiredAttempt_keeps {id token result encrypted random} :
    s.core.Keeps ((s.finishExpiredAttempt id token result encrypted random now).persisted s).core := by
  unfold finishExpiredAttempt
  cases h : s.finishAttemptInner id token result encrypted true random now
  case error => exact .refl
  case ok r =>
    obtain he | ⟨a, -, hc⟩ := finishAttemptInner_concludes h
    case inl => exact he ▸ .refl
    case inr => exact .concludes hc

theorem cancelRun_keeps {runId} : s.core.Keeps ((s.cancelRun runId now).persisted s).core := by
  simp only [cancelRun]
  repeat' split
  any_goals exact .refl
  simp only [Transaction.persisted_commit, core_appendAudit, core_syncBatchRunState]
  exact .sync rfl (.of_update rfl fun _ _ _ => rfl)

theorem retryRun_keeps {runId} : s.core.Keeps ((s.retryRun runId now).persisted s).core := by
  have ⟨_, hd⟩ := s.decrementFailedRollup_eq runId now
  simp only [retryRun, hd]
  split
  case isFalse => exact .refl
  case isTrue =>
    simp only [Transaction.persisted_commit, core_appendAudit, core_syncBatchRunState]
    exact .sync rfl (.of_update rfl fun _ _ _ => rfl)

theorem recordHealthEvidence_keeps {e nodes id order} :
    s.core.Keeps ((s.recordHealthEvidence e nodes id order now).persisted s).core := by
  cases h : s.recordHealthEvidence e nodes id order now
  case error => exact .refl
  case ok r =>
    have ⟨_, _, _, hc⟩ := recordHealthEvidence_core h
    rw [Transaction.persisted_ok, hc]
    split
    case isTrue => exact .poison
    case isFalse => exact .refl

-- Triggers fire only in operations that write their identities.
theorem exec_keeps (s : Store) (op : Op) (h : .triggerIdentities ∉ op.writes) :
    s.core.Keeps (s.exec op).core := by
  have of_frame (hr : .runs ∉ op.writes) (hb : .batches ∉ op.writes) : s.core.Keeps (s.exec op).core :=
    .of_eq ((s.exec_frame op).runs hr) ((s.exec_frame op).batches hb)
  cases op
  case createRun => simp [Op.writes] at h
  case createCronOccurrence => simp [Op.writes] at h
  case createCronBatch => simp [Op.writes] at h
  case createBatch => simp [Op.writes] at h
  case retriggerBatchSnapshot => simp [Op.writes] at h
  case claimCollectionBatch => exact claimCollectionBatch_keeps
  case renewCollectionLease => exact renewCollectionLease_keeps
  case commitCollectionPage => exact commitCollectionPage_keeps
  case finalizeBatch => exact finalizeBatch_keeps
  case failBatch => exact failBatch_keeps
  case cancelBatch => exact cancelBatch_keeps
  case createAttempt => exact createAttempt_keeps
  case releaseOffer => exact releaseOffer_keeps
  case rejectOffer => exact rejectOffer_keeps
  case acceptAttempt => exact acceptAttempt_keeps
  case finishAttempt => exact finishAttempt_keeps
  case finishExpiredAttempt => exact finishExpiredAttempt_keeps
  case cancelRun => exact cancelRun_keeps
  case retryRun => exact retryRun_keeps
  case recordHealthEvidence => exact recordHealthEvidence_keeps
  all_goals exact of_frame (by simp [Op.writes]) (by simp [Op.writes])

end Store

end Scheduler
