import TaskScheduler.Store.Effects

namespace Scheduler

inductive TableName
  | schedules
  | runs
  | attempts
  | agents
  | triggerIdentities
  | batches
  | batchCollectionPages
  | batchItems
  | healthEvidence
  | inputHealth
  | nodeHealth
  | dailyScheduleStats
  | nodeProcessingStats
  | auditEvents
  deriving DecidableEq, Repr

-- The tables that a transaction may write to.
def Op.writes : Op → List TableName
  | .createSchedule ..          => [.schedules, .auditEvents]
  | .updateSchedule ..          => [.schedules, .auditEvents]
  | .setScheduleEnabled ..      => [.schedules, .auditEvents]
  | .rotateWebhook ..           => [.schedules, .auditEvents]
  | .advanceCronCursor ..       => [.schedules]
  | .createRun ..               => [.triggerIdentities, .runs, .auditEvents]
  | .createCronOccurrence ..    => [.schedules, .triggerIdentities, .runs, .auditEvents]
  | .createCronBatch ..         => [.schedules, .triggerIdentities, .batches, .auditEvents]
  | .createBatch ..             => [.triggerIdentities, .batches, .auditEvents]
  | .retriggerBatchSnapshot ..  => [.triggerIdentities, .batches, .auditEvents]
  | .claimCollectionBatch ..    => [.batches]
  | .renewCollectionLease ..    => [.batches]
  | .commitCollectionPage ..    => [.batches, .batchCollectionPages, .batchItems, .auditEvents]
  | .finalizeBatch ..           => [.runs, .batches, .batchItems, .auditEvents]
  | .failBatch ..               => [.batches, .auditEvents]
  | .cancelBatch ..             => [.runs, .batches, .batchItems, .dailyScheduleStats, .auditEvents]
  | .createAttempt ..           => [.runs, .attempts, .batches, .batchItems, .auditEvents]
  | .releaseOffer ..            => [.runs, .attempts, .batches, .batchItems, .auditEvents]
  | .rejectOffer ..             => [.runs, .attempts, .batches, .batchItems, .auditEvents]
  | .acceptAttempt ..           => [.runs, .attempts, .auditEvents]
  | .renewAttempts ..           => [.attempts, .agents]
  | .reauthorizeAttempt ..      => [.attempts]
  | .finishAttempt ..           => concluding
  | .finishExpiredAttempt ..    => concluding
  | .claimExpiredAttempt ..     => [.attempts]
  | .cancelRun ..               => [.runs, .batches, .batchItems, .dailyScheduleStats, .auditEvents]
  | .retryRun ..                => [.runs, .batches, .batchItems, .dailyScheduleStats, .auditEvents]
  | .recordHealthEvidence ..    =>
    [.runs, .batches, .batchItems, .healthEvidence, .inputHealth, .nodeHealth, .auditEvents]
  | .grantInputProbe ..         => [.inputHealth, .auditEvents]
  | .consumeProbeOrIsHeld ..    => [.inputHealth, .auditEvents]
  | .setNodeManualQuarantine .. => [.nodeHealth, .auditEvents]
  | .upsertAgent ..             => [.agents, .nodeHealth, .auditEvents]
  | .disconnectAgent ..         => [.agents, .auditEvents]
where
  concluding : List TableName :=
    [.runs, .attempts, .batches, .batchItems, .dailyScheduleStats, .nodeProcessingStats, .auditEvents]

namespace Store

variable {s s' s₁ s₂ : Store} {now : Time}

-- The store without the rows of a table.
def clear (s : Store) : TableName → Store
  | .schedules            => { s with schedules := ∅ }
  | .runs                 => { s with runs := ∅ }
  | .attempts             => { s with attempts := ∅ }
  | .agents               => { s with agents := ∅ }
  | .triggerIdentities    => { s with triggerIdentities := ∅ }
  | .batches              => { s with batches := ∅ }
  | .batchCollectionPages => { s with batchCollectionPages := ∅ }
  | .batchItems           => { s with batchItems := ∅ }
  | .healthEvidence       => { s with healthEvidence := ∅ }
  | .inputHealth          => { s with inputHealth := ∅ }
  | .nodeHealth           => { s with nodeHealth := ∅ }
  | .dailyScheduleStats   => { s with dailyScheduleStats := ∅ }
  | .nodeProcessingStats  => { s with nodeProcessingStats := ∅ }
  | .auditEvents          => { s with auditEvents := [] }

-- `s'` differs from `s` in no other tables than `w`.
def Frame (w : List TableName) (s s' : Store) : Prop :=
  w.foldl clear s' = w.foldl clear s

theorem clear_clear {t : TableName} : (s.clear t).clear t = s.clear t := by
  cases t <;> rfl

theorem clear_comm {t u : TableName} : (s.clear t).clear u = (s.clear u).clear t := by
  cases t <;> cases u <;> rfl

theorem foldl_clear {t : TableName} {w : List TableName} (h : t ∈ w) :
    w.foldl clear (s.clear t) = w.foldl clear s := by
  induction w generalizing s
  case nil => contradiction
  case cons u w hi =>
    simp only [List.foldl_cons]
    cases h
    case head => rw [clear_clear]
    case tail h => rw [clear_comm, hi h]

namespace Frame

variable {w v : List TableName}

theorem refl : Frame w s s :=
  rfl

theorem trans (h₁ : Frame w s s₁) (h₂ : Frame w s₁ s₂) : Frame w s s₂ :=
  Eq.trans h₂ h₁

-- What does not depend on the tables `w` is the same on both sides.
theorem eq_of {β : Type} {g : Store → β} (h : Frame w s s') (hg : ∀ t ∈ w, ∀ s, g (s.clear t) = g s) :
    g s' = g s := by
  have hf s : g (w.foldl clear s) = g s := by
    clear h
    induction w generalizing s
    case nil => rfl
    case cons t w hi =>
      have ⟨ht, hg⟩ := List.forall_mem_cons.mp hg
      exact (hi hg (s.clear t)).trans (ht s)
  rw [← hf s', ← hf s]
  exact congrArg g h

theorem mono (h : Frame w s s') (hs : w ⊆ v) : Frame v s s' :=
  h.eq_of (g := v.foldl clear) fun _ ht _ => foldl_clear (hs ht)

theorem schedules (h : Frame w s s') (ht : .schedules ∉ w) : s'.schedules = s.schedules :=
  h.eq_of fun t hm _ => by cases t <;> first | rfl | contradiction

theorem runs (h : Frame w s s') (ht : .runs ∉ w) : s'.runs = s.runs :=
  h.eq_of fun t hm _ => by cases t <;> first | rfl | contradiction

theorem attempts (h : Frame w s s') (ht : .attempts ∉ w) : s'.attempts = s.attempts :=
  h.eq_of fun t hm _ => by cases t <;> first | rfl | contradiction

theorem agents (h : Frame w s s') (ht : .agents ∉ w) : s'.agents = s.agents :=
  h.eq_of fun t hm _ => by cases t <;> first | rfl | contradiction

theorem triggerIdentities (h : Frame w s s') (ht : .triggerIdentities ∉ w) :
    s'.triggerIdentities = s.triggerIdentities :=
  h.eq_of fun t hm _ => by cases t <;> first | rfl | contradiction

theorem batches (h : Frame w s s') (ht : .batches ∉ w) : s'.batches = s.batches :=
  h.eq_of fun t hm _ => by cases t <;> first | rfl | contradiction

theorem batchItems (h : Frame w s s') (ht : .batchItems ∉ w) : s'.batchItems = s.batchItems :=
  h.eq_of fun t hm _ => by cases t <;> first | rfl | contradiction

theorem batchCollectionPages (h : Frame w s s') (ht : .batchCollectionPages ∉ w) :
    s'.batchCollectionPages = s.batchCollectionPages :=
  h.eq_of fun t hm _ => by cases t <;> first | rfl | contradiction

theorem healthEvidence (h : Frame w s s') (ht : .healthEvidence ∉ w) :
    s'.healthEvidence = s.healthEvidence :=
  h.eq_of fun t hm _ => by cases t <;> first | rfl | contradiction

theorem inputHealth (h : Frame w s s') (ht : .inputHealth ∉ w) : s'.inputHealth = s.inputHealth :=
  h.eq_of fun t hm _ => by cases t <;> first | rfl | contradiction

theorem nodeHealth (h : Frame w s s') (ht : .nodeHealth ∉ w) : s'.nodeHealth = s.nodeHealth :=
  h.eq_of fun t hm _ => by cases t <;> first | rfl | contradiction

theorem dailyScheduleStats (h : Frame w s s') (ht : .dailyScheduleStats ∉ w) :
    s'.dailyScheduleStats = s.dailyScheduleStats :=
  h.eq_of fun t hm _ => by cases t <;> first | rfl | contradiction

theorem nodeProcessingStats (h : Frame w s s') (ht : .nodeProcessingStats ∉ w) :
    s'.nodeProcessingStats = s.nodeProcessingStats :=
  h.eq_of fun t hm _ => by cases t <;> first | rfl | contradiction

end Frame

section Schedules

theorem createSchedule_frame {new} :
    Frame [.schedules, .auditEvents] s ((s.createSchedule new now).persisted s) := by
  simp only [createSchedule]
  repeat' split
  all_goals rfl

theorem updateSchedule_frame {id revision spec snapshot} :
    Frame [.schedules, .auditEvents] s ((s.updateSchedule id revision spec snapshot now).persisted s) := by
  simp only [updateSchedule]
  split <;> rfl

theorem setScheduleEnabled_frame {id enabled} :
    Frame [.schedules, .auditEvents] s ((s.setScheduleEnabled id enabled now).persisted s) := by
  simp only [setScheduleEnabled]
  repeat' split
  all_goals rfl

theorem rotateWebhook_frame {id publicId secretHash} :
    Frame [.schedules, .auditEvents] s ((s.rotateWebhook id publicId secretHash).persisted s) := by
  simp only [rotateWebhook]
  repeat' split
  all_goals rfl

end Schedules

section Triggers

theorem fence_eq {id revision cron occurrence} (h : s.fence id revision cron occurrence = some s') :
    ∃ schedules, s' = { s with schedules } := by
  simp only [fence] at h
  split at h <;> cases h
  exact ⟨_, rfl⟩

theorem insertTriggerIdentity_eq {t} (h : s.insertTriggerIdentity t = .ok s') :
    ∃ triggerIdentities, s.triggerIdentities.insert t = some triggerIdentities ∧
      s' = { s with triggerIdentities } := by
  simp only [insertTriggerIdentity] at h
  repeat' split at h
  all_goals cases h
  case _ hi _ => exact ⟨_, hi, rfl⟩

theorem insertRun_eq {run} (h : s.insertRun run = .ok s') :
    ∃ runs, s.runs.insert run = some runs ∧ s' = { s with runs } := by
  simp only [insertRun] at h
  repeat' split at h
  all_goals cases h
  case _ hi _ => exact ⟨_, hi, rfl⟩

theorem insertBatch_eq {new triggerId} (h : s.insertBatch new triggerId now = .ok s') :
    ∃ batches, s.batches.insert (new.row triggerId now) = some batches ∧ s' = { s with batches } := by
  simp only [insertBatch] at h
  repeat' split at h
  all_goals cases h
  case _ hi => exact ⟨_, hi, rfl⟩

-- The transactions that look a conflict up have been rolled back.
theorem existingTarget_persisted {new} : (s.existingTarget new).persisted s = s := by
  simp only [existingTarget]
  repeat' split
  all_goals rfl

theorem existingRun_persisted {new} : (s.existingRun new).persisted s = s := by
  simp only [existingRun]
  repeat' split
  all_goals rfl

theorem createRun_frame {new triggerId} : Frame [.triggerIdentities, .runs, .auditEvents] s
    ((s.createRun new triggerId now).persisted s) := by
  simp only [createRun]
  split
  case h_1 => rw [existingTarget_persisted]; rfl
  case h_2 => rfl
  case h_3 ht =>
    obtain ⟨_, -, rfl⟩ := insertTriggerIdentity_eq ht
    split
    case h_1 => rw [existingRun_persisted]; rfl
    case h_2 => rfl
    case h_3 hr =>
      obtain ⟨_, -, rfl⟩ := insertRun_eq hr
      rfl

theorem createCronOccurrence_frame {new revision cron triggerId} :
    Frame [.schedules, .triggerIdentities, .runs, .auditEvents] s
      ((s.createCronOccurrence new revision cron triggerId now).persisted s) := by
  simp only [createCronOccurrence]
  repeat' split
  any_goals rfl
  case _ hf _ _ ht _ _ _ _ _ =>
    obtain ⟨_, rfl⟩ := fence_eq hf
    obtain ⟨_, -, rfl⟩ := insertTriggerIdentity_eq ht
    rfl
  case _ hf _ _ ht _ _ hr =>
    obtain ⟨_, rfl⟩ := fence_eq hf
    obtain ⟨_, -, rfl⟩ := insertTriggerIdentity_eq ht
    obtain ⟨_, -, rfl⟩ := insertRun_eq hr
    rfl

theorem createCronBatch_frame {new revision cron triggerId} :
    Frame [.schedules, .triggerIdentities, .batches, .auditEvents] s
      ((s.createCronBatch new revision cron triggerId now).persisted s) := by
  simp only [createCronBatch]
  repeat' split
  any_goals rfl
  case _ hf _ _ ht _ _ hb =>
    obtain ⟨_, rfl⟩ := fence_eq hf
    obtain ⟨_, -, rfl⟩ := insertTriggerIdentity_eq ht
    obtain ⟨_, -, rfl⟩ := insertBatch_eq hb
    rfl

theorem createBatch_frame {new triggerId} : Frame [.triggerIdentities, .batches, .auditEvents] s
    ((s.createBatch new triggerId now).persisted s) := by
  simp only [createBatch]
  repeat' split
  any_goals rfl
  case _ ht _ _ hb =>
    obtain ⟨_, -, rfl⟩ := insertTriggerIdentity_eq ht
    obtain ⟨_, -, rfl⟩ := insertBatch_eq hb
    rfl

theorem retriggerBatchSnapshot_frame {source new scheduledAt triggerId} :
    Frame [.triggerIdentities, .batches, .auditEvents] s
      ((s.retriggerBatchSnapshot source new scheduledAt triggerId now).persisted s) := by
  simp only [retriggerBatchSnapshot]
  repeat' split
  any_goals rfl
  case _ ht _ _ hb =>
    obtain ⟨_, -, rfl⟩ := insertTriggerIdentity_eq ht
    obtain ⟨_, -, rfl⟩ := insertBatch_eq hb
    rfl

end Triggers

section Batches

theorem claimCollectionBatch_frame {batchId owner lease token} :
    Frame [.batches] s ((s.claimCollectionBatch batchId owner lease token now).persisted s) := by
  simp only [claimCollectionBatch]
  split <;> rfl

theorem insertCollectionPage_eq {page} (h : s.insertCollectionPage page now = .ok s') :
    ∃ pages, s' = { s with batchCollectionPages := pages } := by
  simp only [insertCollectionPage] at h
  repeat' split at h
  all_goals cases h
  exact ⟨_, rfl⟩

theorem commitCollectionPage_frame {page} :
    Frame [.batches, .batchCollectionPages, .batchItems, .auditEvents] s
      ((s.commitCollectionPage page now).persisted s) := by
  simp only [commitCollectionPage]
  repeat' split
  any_goals rfl
  case _ hp _ _ _ hi =>
    obtain ⟨_, rfl⟩ := insertCollectionPage_eq hp
    obtain ⟨_, -, rfl⟩ := insertItems_eq hi
    rfl

theorem materializeItems_eq {batch newId items} (h : materializeItems batch newId now s items = .ok s') :
    ∃ runs batchItems audit, s' = { s with runs, batchItems, auditEvents := audit } := by
  induction items generalizing s
  case nil =>
    cases h
    exact ⟨_, _, _, rfl⟩
  case cons item items hi =>
    simp only [materializeItems] at h
    split at h
    case h_1 => contradiction
    case h_2 s₁ hm =>
      obtain ⟨_, _, _, rfl⟩ := hi h
      simp only [materializeItem] at hm
      repeat' split at hm
      all_goals cases hm
      case _ hr =>
        obtain ⟨_, -, rfl⟩ := insertRun_eq hr
        exact ⟨_, _, _, rfl⟩

theorem finalizeBatch_frame {batchId token newId} :
    Frame [.runs, .batches, .batchItems, .auditEvents] s
      ((s.finalizeBatch batchId token newId now).persisted s) := by
  simp only [finalizeBatch]
  repeat' split
  any_goals rfl
  all_goals
    case _ hm =>
      obtain ⟨_, _, _, rfl⟩ := materializeItems_eq hm
      rfl

theorem failBatch_frame {batchId code} :
    Frame [.batches, .auditEvents] s ((s.failBatch batchId code).persisted s) := by
  simp only [failBatch]
  repeat' split
  all_goals rfl

theorem countCancelled_eq {runs : List Run} :
    ∃ stats, s.countCancelled runs now = { s with dailyScheduleStats := stats } := by
  simp only [countCancelled]
  generalize (runs.map (·.scheduleId)).dedup = ids
  induction ids generalizing s
  case nil => exact ⟨_, rfl⟩
  case cons id ids hi =>
    have ⟨_, h⟩ := hi (s := countCancelled.countGroup runs now s id)
    exact ⟨_, h⟩

theorem cancelBatch_frame {batchId} :
    Frame [.runs, .batches, .batchItems, .dailyScheduleStats, .auditEvents] s
      ((s.cancelBatch batchId now).persisted s) := by
  simp only [cancelBatch]
  split
  case isFalse => rfl
  case isTrue =>
    rw [countCancelled_eq.choose_spec]
    rfl

end Batches

section Attempts

theorem syncBatchRunState_frame {w runId st} (h : Frame w s s₁)
    (hs : [.batches, .batchItems, .auditEvents] ⊆ w) : Frame w s (s₁.syncBatchRunState runId st) := by
  refine h.trans <| .mono (w := [.batches, .batchItems, .auditEvents]) ?_ hs
  have ⟨_, _, _, h⟩ := s₁.syncBatchRunState_eq runId st
  rw [h]
  rfl

theorem appendAudit_frame {w entity event} (h : Frame w s s₁) (ht : .auditEvents ∈ w) :
    Frame w s (s₁.appendAudit entity event) :=
  h.trans <| .mono (w := [.auditEvents]) rfl (by simpa using ht)

theorem createAttempt_frame {runId agentId lease id token} :
    Frame [.runs, .attempts, .batches, .batchItems, .auditEvents] s
      ((s.createAttempt runId agentId lease id token now).persisted s) := by
  simp only [createAttempt]
  repeat' split
  case _ | _ | _ => rfl
  case _ =>
    simp only [Transaction.persisted_commit]
    exact appendAudit_frame (syncBatchRunState_frame (by rfl) (by simp)) (by simp)

theorem releaseOffer_frame {id} : Frame [.runs, .attempts, .batches, .batchItems, .auditEvents] s
    ((s.releaseOffer id).persisted s) := by
  simp only [releaseOffer]
  repeat' split
  case _ | _ => rfl
  case _ =>
    exact syncBatchRunState_frame (by rfl) (by simp)

theorem rejectOffer_frame {id token result encrypted} :
    Frame [.runs, .attempts, .batches, .batchItems, .auditEvents] s
      ((s.rejectOffer id token result encrypted now).persisted s) := by
  simp only [rejectOffer]
  repeat' split
  case _ | _ => rfl
  case _ =>
    simp only [Transaction.persisted_commit]
    exact appendAudit_frame (syncBatchRunState_frame (by rfl) (by simp)) (by simp)

theorem acceptAttempt_frame {id token lease} : Frame [.runs, .attempts, .auditEvents] s
    ((s.acceptAttempt id token lease now).persisted s) := by
  simp only [acceptAttempt]
  repeat' split
  all_goals rfl

theorem reauthorizeAttempt_frame {id agentId token lease} :
    Frame [.attempts] s ((s.reauthorizeAttempt id agentId token lease now).persisted s) := by
  simp only [reauthorizeAttempt]
  repeat' split
  all_goals rfl

theorem applyResult_frame {attempt run result encrypted random} : Frame Op.writes.concluding s
    (s.applyResult attempt run result encrypted random now) := by
  simp only [applyResult, updateDailyScheduleStats, updateNodeProcessingStats, Op.writes.concluding]
  refine appendAudit_frame (syncBatchRunState_frame ?_ (by simp)) (by simp)
  rfl

theorem finishAttemptInner_frame {id token result encrypted expired random r}
    (h : s.finishAttemptInner id token result encrypted expired random now = .ok r) :
    Frame Op.writes.concluding s r.2 := by
  simp only [finishAttemptInner] at h
  repeat' split at h
  all_goals cases h
  case _ | _ | _ | _ => rfl
  case _ => exact applyResult_frame

theorem finishAttempt_frame {id token result encrypted random} : Frame Op.writes.concluding s
    ((s.finishAttempt id token result encrypted random now).persisted s) := by
  simp only [finishAttempt]
  repeat' split
  any_goals rfl
  case _ h => exact finishAttemptInner_frame h

theorem finishExpiredAttempt_frame {id token result encrypted random} : Frame Op.writes.concluding s
    ((s.finishExpiredAttempt id token result encrypted random now).persisted s) := by
  unfold finishExpiredAttempt
  cases h : s.finishAttemptInner id token result encrypted true random now
  case error => rfl
  case ok => exact finishAttemptInner_frame h

theorem claimExpiredAttempt_frame {id grace} :
    Frame [.attempts] s ((s.claimExpiredAttempt id grace now).persisted s) := by
  simp only [claimExpiredAttempt]
  repeat' split
  all_goals rfl

theorem cancelRun_frame {runId} :
    Frame [.runs, .batches, .batchItems, .dailyScheduleStats, .auditEvents] s
      ((s.cancelRun runId now).persisted s) := by
  simp only [cancelRun]
  repeat' split
  case _ | _ => rfl
  case _ =>
    simp only [Transaction.persisted_commit]
    exact appendAudit_frame (syncBatchRunState_frame (by rfl) (by simp)) (by simp)

theorem retryRun_frame {runId} :
    Frame [.runs, .batches, .batchItems, .dailyScheduleStats, .auditEvents] s
      ((s.retryRun runId now).persisted s) := by
  have ⟨_, hd⟩ := s.decrementFailedRollup_eq runId now
  simp only [retryRun, hd]
  split
  case isFalse => rfl
  case isTrue =>
    simp only [Transaction.persisted_commit]
    exact appendAudit_frame (syncBatchRunState_frame (by rfl) (by simp)) (by simp)

end Attempts

section Health

theorem insertEvidence_frame {e id} (h : s.insertEvidence e id now = .ok s') :
    Frame [.healthEvidence, .auditEvents] s s' := by
  simp only [insertEvidence] at h
  repeat' split at h
  all_goals cases h
  all_goals rfl

theorem foldl_frame {α : Type} {w : List TableName} {f : Store → α → Store}
    (h : ∀ s a, Frame w s (f s a)) {l : List α} : Frame w s (l.foldl f s) := by
  induction l generalizing s
  case nil => exact .refl
  case cons a l hi => exact (h s a).trans hi

theorem reconcileConfirmedCollectionItems_frame {digest fingerprint} :
    Frame [.runs, .batches, .batchItems, .auditEvents] s
      (s.reconcileConfirmedCollectionItems digest fingerprint) := by
  simp only [reconcileConfirmedCollectionItems]
  refine .trans (.trans (?_ : Frame _ s _) (foldl_frame fun _ _ => ?_)) (foldl_frame fun _ _ => ?_)
  all_goals rfl

theorem confirmPoison_frame {w digest fingerprint} (h : Frame w s s₁)
    (hs : [.healthEvidence, .runs, .batches, .batchItems, .auditEvents] ⊆ w) :
    Frame w s (s₁.confirmPoison digest fingerprint) := by
  refine h.trans <| .mono (w := [.healthEvidence, .runs, .batches, .batchItems, .auditEvents]) ?_ hs
  exact .trans (by rfl) (reconcileConfirmedCollectionItems_frame.mono <| by simp)

theorem ensureNodeHealth_frame {agentId r} (h : s.ensureNodeHealth agentId now = .ok r) :
    Frame [.nodeHealth, .auditEvents] s r.2 := by
  simp only [ensureNodeHealth] at h
  repeat' split at h
  all_goals cases h
  all_goals rfl

theorem rescoreNode_frame {order agentId} (h : s.rescoreNode order agentId now = .ok s') :
    Frame [.nodeHealth, .auditEvents] s s' := by
  simp only [rescoreNode] at h
  split at h
  case h_1 => contradiction
  case h_2 he =>
    cases h
    refine (ensureNodeHealth_frame he).trans ?_
    repeat' split
    all_goals rfl

theorem rescoreNodes_frame {order agents} (h : rescoreNodes order now s agents = .ok s') :
    Frame [.nodeHealth, .auditEvents] s s' := by
  induction agents generalizing s
  case nil =>
    cases h
    rfl
  case cons agentId agents hi =>
    simp only [rescoreNodes] at h
    split at h
    case h_1 => contradiction
    case h_2 hr => exact (rescoreNode_frame hr).trans (hi h)

theorem recordHealthEvidence_frame {e nodes id order} :
    Frame [.runs, .batches, .batchItems, .healthEvidence, .inputHealth, .nodeHealth, .auditEvents] s
      ((s.recordHealthEvidence e nodes id order now).persisted s) := by
  simp only [recordHealthEvidence]
  split
  case h_1 => rfl
  case h_2 s₁ he =>
    split
    case h_1 => rfl
    case h_2 hr =>
      refine ((insertEvidence_frame he).mono (by simp)).trans <|
        .trans ?_ ((rescoreNodes_frame hr).mono (by simp))
      split
      case isTrue =>
        split
        case isTrue => exact confirmPoison_frame (by rfl) (by simp)
        case isFalse => rfl
      case isFalse =>
        refine appendAudit_frame ?_ (by simp)
        split
        case isTrue => exact confirmPoison_frame (by rfl) (by simp)
        case isFalse => rfl

theorem grantInputProbe_frame {digest fingerprint} : Frame [.inputHealth, .auditEvents] s
    ((s.grantInputProbe digest fingerprint now).persisted s) := by
  simp only [grantInputProbe]
  split <;> rfl

theorem consumeProbeOrIsHeld_frame {digest fingerprint} : Frame [.inputHealth, .auditEvents] s
    ((s.consumeProbeOrIsHeld digest fingerprint now).persisted s) := by
  simp only [consumeProbeOrIsHeld]
  repeat' split
  all_goals rfl

theorem setNodeManualQuarantine_frame {agentId quarantined} : Frame [.nodeHealth, .auditEvents] s
    ((s.setNodeManualQuarantine agentId quarantined now).persisted s) := by
  simp only [setNodeManualQuarantine]
  split
  case h_1 => rfl
  case h_2 he =>
    split
    case isTrue => rfl
    case isFalse => exact (ensureNodeHealth_frame he).trans (by rfl)

end Health

theorem exec_frame (s : Store) (op : Op) : Frame op.writes s (s.exec op) := by
  cases op
  case createSchedule => exact createSchedule_frame
  case updateSchedule => exact updateSchedule_frame
  case setScheduleEnabled => exact setScheduleEnabled_frame
  case rotateWebhook => exact rotateWebhook_frame
  case createRun => exact createRun_frame
  case createCronOccurrence => exact createCronOccurrence_frame
  case createCronBatch => exact createCronBatch_frame
  case createBatch => exact createBatch_frame
  case retriggerBatchSnapshot => exact retriggerBatchSnapshot_frame
  case claimCollectionBatch => exact claimCollectionBatch_frame
  case commitCollectionPage => exact commitCollectionPage_frame
  case finalizeBatch => exact finalizeBatch_frame
  case failBatch => exact failBatch_frame
  case cancelBatch => exact cancelBatch_frame
  case createAttempt => exact createAttempt_frame
  case releaseOffer => exact releaseOffer_frame
  case rejectOffer => exact rejectOffer_frame
  case acceptAttempt => exact acceptAttempt_frame
  case reauthorizeAttempt => exact reauthorizeAttempt_frame
  case finishAttempt => exact finishAttempt_frame
  case finishExpiredAttempt => exact finishExpiredAttempt_frame
  case claimExpiredAttempt => exact claimExpiredAttempt_frame
  case cancelRun => exact cancelRun_frame
  case retryRun => exact retryRun_frame
  case recordHealthEvidence => exact recordHealthEvidence_frame
  case grantInputProbe => exact grantInputProbe_frame
  case consumeProbeOrIsHeld => exact consumeProbeOrIsHeld_frame
  case setNodeManualQuarantine => exact setNodeManualQuarantine_frame
  case advanceCronCursor | renewCollectionLease | renewAttempts | upsertAgent | disconnectAgent => rfl

end Store

end Scheduler
