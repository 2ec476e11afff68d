import TaskScheduler.Coordinator.Runs
import TaskScheduler.Store.Frames

namespace Scheduler

-- The state that an event of a run puts it in.
def EventType.runState? : EventType → Option RunState
  | runQueued | runRetried | runRetryScheduled | attemptRejectedBeforeAcceptance => some .queued
  | attemptOffered => some .running
  | runSucceeded   => some .succeeded
  | runFailed      => some .failed
  | runCancelled   => some .cancelled
  | _              => none

def AuditEvent.runState? (e : AuditEvent) (runId : Uuid) : Option RunState :=
  if e.entity = .run runId then e.event.runState? else none

-- The state that the events of a run, taken in order, leave it in.
def foldAudit (events : List AuditEvent) (runId : Uuid) : Option RunState :=
  events.foldl (fun st e => (e.runState? runId).or st) none

namespace Store

variable {s s₁ s₂ s' : Store} {now : Time} {runId : Uuid}

def auditedState (s : Store) (runId : Uuid) : Option RunState :=
  foldAudit s.auditEvents runId

-- The audit log tells the state of every run.
def Audited (s : Store) : Prop :=
  ∀ runId run, s.runs.get? runId = some run → s.auditedState runId = some run.state

theorem auditedState_appendAudit {entity event} : (s.appendAudit entity event).auditedState runId =
    (AuditEvent.runState? ⟨entity, event⟩ runId).or (s.auditedState runId) := by
  simp [auditedState, foldAudit, appendAudit]

theorem auditedState_append_run {id : Uuid} {event : EventType} {st : RunState}
    (he : event.runState? = some st) : (s.appendAudit (.run id) event).auditedState runId =
      if runId = id then some st else s.auditedState runId := by
  rw [auditedState_appendAudit]
  by_cases h : runId = id
  case pos => simp [AuditEvent.runState?, h, he]
  case neg => simp [AuditEvent.runState?, h, Ne.symm h]

-- Nothing was logged that is about the state of a run.
def Echoes (s s' : Store) : Prop :=
  ∀ runId, s'.auditedState runId = s.auditedState runId

namespace Echoes

theorem refl : s.Echoes s :=
  fun _ => rfl

theorem trans (h₁ : s.Echoes s₁) (h₂ : s₁.Echoes s₂) : s.Echoes s₂ :=
  fun r => (h₂ r).trans (h₁ r)

theorem of_eq (h : s'.auditEvents = s.auditEvents) : s.Echoes s' :=
  fun r => congrArg (foldAudit · r) h

theorem append (h : s.Echoes s₁) {entity event}
    (hn : ∀ r, AuditEvent.runState? ⟨entity, event⟩ r = none) :
    s.Echoes (s₁.appendAudit entity event) := by
  intro r
  rw [auditedState_appendAudit, hn, Option.none_or, h]

theorem append_unless (h : s.Echoes s₁) {entity event} {c : Prop} [Decidable c]
    (hn : ∀ r, AuditEvent.runState? ⟨entity, event⟩ r = none) :
    s.Echoes (if c then s₁ else s₁.appendAudit entity event) := by
  split
  case isTrue => exact h
  case isFalse => exact h.append hn

theorem append_batch (h : s.Echoes s₁) {id : Uuid} {event} :
    s.Echoes (s₁.appendAudit (.batch id) event) :=
  h.append fun _ => by simp [AuditEvent.runState?]

theorem append_neutral (h : s.Echoes s₁) {id : Uuid} {event : EventType}
    (hn : event.runState? = none) : s.Echoes (s₁.appendAudit (.run id) event) :=
  h.append fun _ => by simp [AuditEvent.runState?, hn]

theorem sync (h : s.Echoes s₁) {r : Uuid} {st : RunState} :
    s.Echoes (s₁.syncBatchRunState r st) := by
  refine h.trans ?_
  simp only [syncBatchRunState, completeBatch, reopenBatch]
  repeat' split
  any_goals exact .of_eq rfl
  all_goals exact .append_batch <| .of_eq rfl

theorem foldl {α : Type} {f : Store → α → Store} (h : ∀ (s : Store) a, s.Echoes (f s a))
    {l : List α} : s.Echoes (l.foldl f s) := by
  induction l generalizing s
  case nil => exact .refl
  case cons a l hi => exact (h s a).trans hi

end Echoes

-- Every run was changed by `f`.
def Maps (f : Run → Run) (s s' : Store) : Prop :=
  ∀ r, s'.runs.get? r = (s.runs.get? r).map f

theorem Maps.of_eq (h : s'.runs = s.runs) : s.Maps id s' :=
  fun _ => by rw [h, Option.map_id, id]

theorem Maps.of_update {p : Run → Bool} {f : Run → Run}
    (hf : ∀ r, Keyed.key (f r) = Keyed.key r) (h : s'.runs = s.runs.update p f hf) : s.Maps (fun r => if p r then f r else r) s' :=
  fun _ => by rw [h, Table.get?_update]

theorem Maps.sync {f : Run → Run} (h : s.Maps f s₁) {r : Uuid} {st : RunState} :
    s.Maps f (s₁.syncBatchRunState r st) :=
  fun _ => by rw [syncBatchRunState_runs, h]

namespace Audited

variable {f : Run → Run}

-- The log says nothing of a change, so that nothing may have changed.
theorem iff_of_echoes (h : s.Audited) (hf : s.Maps f s') (he : s.Echoes s') :
    s'.Audited ↔ ∀ r run, s.runs.get? r = some run → (f run).state = run.state := by
  constructor
  case mp =>
    intro h' r run hr
    have h' := h' r (f run) (by rw [hf, hr, Option.map_some])
    rw [he, h r run hr] at h'
    exact (Option.some_inj.mp h').symm
  case mpr =>
    intro hs r run' hr
    rw [hf, Option.map_eq_some_iff] at hr
    obtain ⟨run, hr, rfl⟩ := hr
    rw [he, h r run hr, hs r run hr]

theorem iff_of_silent {p : Run → Bool} (h : s.Audited)
    (hf : s.Maps (fun r => if p r then f r else r) s') (he : s.Echoes s')
    (hp : ∀ run, p run → (f run).state ≠ run.state) :
    s'.Audited ↔ ¬∃ run ∈ s.runs, p run := by
  rw [h.iff_of_echoes hf he]
  constructor
  case mp =>
    intro hs ⟨run, hm, hr⟩
    have hs := hs _ run <| Table.get?_of_mem hm
    rw [if_pos hr] at hs
    exact hp run hr hs
  case mpr =>
    intro hn r run hr
    rw [if_neg fun hx => hn ⟨run, Table.mem_of_get? hr, hx⟩]

theorem unchanged (h : s.Audited) (hf : s.Maps f s') (he : s.Echoes s')
    (hs : ∀ run, (f run).state = run.state) : s'.Audited :=
  h.iff_of_echoes hf he |>.mpr fun _ run _ => hs run

theorem same (h : s.Audited) (hr : s'.runs = s.runs) (he : s.Echoes s') : s'.Audited :=
  h.unchanged (.of_eq hr) he fun _ => rfl

-- The log says that one run was put into a state.
theorem iff_of_append (h : s.Audited) {id : Uuid} {event : EventType} {st : RunState}
    (hst : event.runState? = some st) (hf : s.Maps f s₁) (he : s.Echoes s₁)
    (hi : ∀ run, run.id ≠ id → f run = run) : (s₁.appendAudit (.run id) event).Audited ↔
      ∀ run, s.runs.get? id = some run → (f run).state = st := by
  constructor
  case mp =>
    intro h' run hr
    have h' := h' id (f run) (by rw [appendAudit_runs, hf, hr, Option.map_some])
    rw [auditedState_append_run hst, if_pos rfl] at h'
    exact (Option.some_inj.mp h').symm
  case mpr =>
    intro hs r run' hr
    rw [appendAudit_runs, hf, Option.map_eq_some_iff] at hr
    obtain ⟨run, hr, rfl⟩ := hr
    rw [auditedState_append_run hst]
    split
    case isTrue hr' => rw [hs run (hr' ▸ hr)]
    case isFalse hr' =>
      have hk : run.id = r := Table.key_of_get? hr
      rw [he, h r run hr, hi run <| hk.symm ▸ hr']

theorem put_run (h : s.Audited) {id : Uuid} {event : EventType} {st : RunState}
    (hst : event.runState? = some st) (hf : s.Maps f s₁) (he : s.Echoes s₁)
    (hi : ∀ run, run.id ≠ id → f run = run)
    (hs : ∀ run, s.runs.get? id = some run → (f run).state = st) :
    (s₁.appendAudit (.run id) event).Audited :=
  h.iff_of_append hst hf he hi |>.mpr hs

theorem insert_run (h : s.Audited) {run : Run} (hr : s₁.insertRun run = .ok s₂)
    (hq : run.state = .queued) (hs : s₁.runs = s.runs) (he : s.Echoes s₁) :
    (s₂.appendAudit (.run run.id) .runQueued).Audited := by
  obtain ⟨_, hi, rfl⟩ := insertRun_eq hr
  intro r run' hr'
  rw [appendAudit_runs, Table.get?_of_insert hi] at hr'
  rw [auditedState_append_run rfl]
  split at hr'
  case isTrue hk =>
    cases hr'
    exact (if_pos hk.symm).trans <| congrArg some hq.symm
  case isFalse hk =>
    rw [hs] at hr'
    exact (if_neg <| Ne.symm hk).trans <| (he r).trans <| h r run' hr'

end Audited

section Quiet

-- The operations that neither change a run nor log anything about one.
def quiet : Op → Bool
  | .createRun .. | .createCronOccurrence .. | .finalizeBatch .. | .cancelBatch ..
  | .createAttempt .. | .releaseOffer .. | .rejectOffer .. | .acceptAttempt ..
  | .finishAttempt .. | .finishExpiredAttempt .. | .cancelRun .. | .retryRun ..
  | .recordHealthEvidence .. => false
  | _                        => true

theorem ensureNodeHealth_audit {agentId node}
    (h : s.ensureNodeHealth agentId now = .ok (node, s')) : s'.auditEvents = s.auditEvents := by
  simp only [ensureNodeHealth] at h
  repeat' split at h
  all_goals cases h
  all_goals rfl

theorem exec_echoes {op : Op} (h : quiet op) : s.Echoes (s.exec op) := by
  have append {s₁ : Store} {entity event} (h : s₁.auditEvents = s.auditEvents)
      (he : ∀ r, entity ≠ .run r) : s.Echoes (s₁.appendAudit entity event) :=
    .append (.of_eq h) fun r => by simp [AuditEvent.runState?, he r]
  cases op <;> try contradiction
  case createCronBatch =>
    simp only [exec, createCronBatch]
    repeat' split
    any_goals exact .refl
    case _ hf _ _ ht _ _ hb =>
      obtain ⟨_, rfl⟩ := fence_eq hf
      obtain ⟨_, -, rfl⟩ := insertTriggerIdentity_eq ht
      obtain ⟨_, -, rfl⟩ := insertBatch_eq hb
      exact append rfl (by rintro _ ⟨⟩)
  case createBatch =>
    simp only [exec, createBatch]
    repeat' split
    any_goals exact .refl
    case _ ht _ _ hb =>
      obtain ⟨_, -, rfl⟩ := insertTriggerIdentity_eq ht
      obtain ⟨_, -, rfl⟩ := insertBatch_eq hb
      exact append rfl (by rintro _ ⟨⟩)
  case retriggerBatchSnapshot =>
    simp only [exec, retriggerBatchSnapshot]
    repeat' split
    any_goals exact .refl
    case _ ht _ _ hb =>
      obtain ⟨_, -, rfl⟩ := insertTriggerIdentity_eq ht
      obtain ⟨_, -, rfl⟩ := insertBatch_eq hb
      exact append rfl (by rintro _ ⟨⟩)
  case commitCollectionPage =>
    simp only [exec, commitCollectionPage]
    repeat' split
    any_goals exact .refl
    case _ hp _ _ _ hi =>
      obtain ⟨_, rfl⟩ := insertCollectionPage_eq hp
      obtain ⟨_, -, rfl⟩ := insertItems_eq hi
      exact append rfl (by rintro _ ⟨⟩)
  case setNodeManualQuarantine =>
    simp only [exec, setNodeManualQuarantine]
    split
    case h_1 => exact .refl
    case h_2 hn =>
      split
      case isTrue => exact .refl
      case isFalse =>
        have ha := ensureNodeHealth_audit hn
        exact append ha (by rintro _ ⟨⟩)
  all_goals
    simp only [exec, createSchedule, updateSchedule, setScheduleEnabled, rotateWebhook,
      advanceCronCursor, claimCollectionBatch, renewCollectionLease, failBatch, renewAttempts,
      reauthorizeAttempt, claimExpiredAttempt, grantInputProbe, consumeProbeOrIsHeld, upsertAgent,
      disconnectAgent]
    repeat' split
  any_goals exact .of_eq rfl
  all_goals exact append rfl (by rintro _ ⟨⟩)

theorem exec_quiet (ha : s.Audited) {op : Op} (h : quiet op) : (s.exec op).Audited := by
  refine ha.same ((s.exec_frame op).runs ?_) (exec_echoes h)
  cases op <;> simp_all [quiet, Op.writes]

end Quiet

namespace Audited

variable (h : s.Audited)
include h

theorem createRun {new triggerId} : ((s.createRun new triggerId now).persisted s).Audited := by
  simp only [Store.createRun]
  split
  case h_1 => exact existingTarget_persisted.symm ▸ h
  case h_2 => exact h
  case h_3 ht =>
    obtain ⟨_, -, rfl⟩ := insertTriggerIdentity_eq ht
    split
    case h_1 => exact existingRun_persisted.symm ▸ h
    case h_2 => exact h
    case h_3 hr =>
      exact h.insert_run hr rfl rfl (.of_eq rfl)

theorem createCronOccurrence {new revision cron triggerId} :
    ((s.createCronOccurrence new revision cron triggerId now).persisted s).Audited := by
  simp only [Store.createCronOccurrence]
  repeat' split
  any_goals exact h
  case _ hf _ _ ht _ _ _ _ _ =>
    obtain ⟨_, rfl⟩ := fence_eq hf
    obtain ⟨_, -, rfl⟩ := insertTriggerIdentity_eq ht
    exact h.same rfl (.of_eq rfl)
  case _ hf _ _ ht _ _ hr =>
    obtain ⟨_, rfl⟩ := fence_eq hf
    obtain ⟨_, -, rfl⟩ := insertTriggerIdentity_eq ht
    exact h.insert_run hr rfl rfl (.of_eq rfl)

theorem materializeItems {batch newId items}
    (hm : Store.materializeItems batch newId now s items = .ok s') : s'.Audited := by
  induction items generalizing s
  case nil =>
    cases hm
    exact h
  case cons item items hi =>
    simp only [Store.materializeItems] at hm
    split at hm
    case h_1 => contradiction
    case h_2 s₁ hx =>
      refine hi ?_ hm
      simp only [materializeItem] at hx
      repeat' split at hx
      all_goals cases hx
      case _ hr =>
        have hq := h.insert_run hr rfl rfl .refl
        exact hq.same rfl (.of_eq rfl)

theorem finalizeBatch {batchId token newId} :
    ((s.finalizeBatch batchId token newId now).persisted s).Audited := by
  simp only [Store.finalizeBatch]
  repeat' split
  any_goals exact h
  all_goals
    case _ hm => exact (h.materializeItems hm).same rfl (.append_batch <| .of_eq rfl)

theorem createAttempt {runId agentId lease id token} :
    ((s.createAttempt runId agentId lease id token now).persisted s).Audited := by
  simp only [Store.createAttempt]
  repeat' split
  any_goals exact h
  case _ run hr hq _ _ _ =>
    refine h.put_run rfl (.sync <| .of_update ?hf rfl) (.sync <| .of_eq rfl) ?hi ?_
    case hf => exact fun _ => rfl
    case hi => simp_all
    intro run' hr'
    have hk : run.id = runId := Table.key_of_get? hr
    cases hr.symm.trans hr'
    simp_all

theorem cancelRun {runId} : ((s.cancelRun runId now).persisted s).Audited := by
  simp only [Store.cancelRun]
  repeat' split
  any_goals exact h
  case _ run hr ht =>
    refine h.put_run rfl (.sync <| .of_update ?hf rfl) (.sync <| .of_eq rfl) ?hi ?_
    case hf => exact fun _ => rfl
    case hi => simp_all
    intro run' hr'
    have hk : run.id = runId := Table.key_of_get? hr
    cases hr.symm.trans hr'
    cases hs : run.state <;> simp_all [RunState.isTerminal, RunState.isActive]

theorem retryRun {runId} : ((s.retryRun runId now).persisted s).Audited := by
  simp only [Store.retryRun]
  split
  case isFalse => exact h
  case isTrue ha =>
    obtain ⟨_, he⟩ := s.decrementFailedRollup_eq runId now
    rw [he] at ha ⊢
    refine h.put_run rfl (.sync <| .of_update ?hf rfl) (.sync <| .of_eq rfl) ?hi ?_
    case hf => exact fun _ => rfl
    case hi => simp_all
    intro run hr
    obtain ⟨run', hm, hf⟩ := List.any_eq_true.mp ha
    obtain ⟨hk, hs⟩ : run'.id = runId ∧ run'.state = .failed := by simpa using hf
    obtain rfl := hk
    cases (Table.get?_of_mem hm).symm.trans hr
    simp [hs]

theorem acceptAttempt {attemptId token lease} :
    ((s.acceptAttempt attemptId token lease now).persisted s).Audited := by
  simp only [Store.acceptAttempt]
  repeat' split
  any_goals exact h
  case _ =>
    refine h.unchanged (.of_update ?hf rfl) (.append_neutral (.of_eq rfl) rfl) fun run => ?_
    case hf => exact fun _ => rfl
    split <;> rfl

theorem applyResult {attempt run result encrypted random} (hr : s.runs.get? run.id = some run) :
    (s.applyResult attempt run result encrypted random now).Audited := by
  refine h.put_run (?hst : _ = some (run.stateAfter result.outcome))
    (.sync <| .of_update ?hf rfl) (.sync <| .of_eq rfl) ?hi ?_
  case hf => exact fun _ => rfl
  case hst =>
    simp only [Run.stateAfter]
    repeat' split
    all_goals simp_all [EventType.runState?]
  case hi => simp_all
  intro run' hr'
  cases hr.symm.trans hr'
  simp

theorem finishAttemptInner {id token result encrypted expired random r}
    (hr : s.finishAttemptInner id token result encrypted expired random now = .ok r) :
    r.2.Audited := by
  simp only [Store.finishAttemptInner] at hr
  repeat' split at hr
  all_goals cases hr
  any_goals exact h
  case _ => exact h.same rfl (.append_neutral (.of_eq rfl) rfl)
  case _ attempt _ _ run hr _ _ _ _ _ =>
    have hk : run.id = attempt.runId := Table.key_of_get? hr
    exact h.applyResult (hk ▸ hr)

theorem finishAttempt {id token result encrypted random} :
    ((s.finishAttempt id token result encrypted random now).persisted s).Audited := by
  simp only [Store.finishAttempt]
  split
  case h_1 => exact h
  case h_2 => exact h
  case h_3 he => exact h.finishAttemptInner he

theorem finishExpiredAttempt {id token result encrypted random} :
    ((s.finishExpiredAttempt id token result encrypted random now).persisted s).Audited := by
  simp only [Store.finishExpiredAttempt]
  cases he : s.finishAttemptInner id token result encrypted true random now
  case error => exact h
  case ok => exact h.finishAttemptInner he

theorem releaseOffer_iff {attemptId} : ((s.releaseOffer attemptId).persisted s).Audited ↔
    ¬∃ a, s.attempts.get? attemptId = some a ∧ a.state = .offered ∧
      ∃ run ∈ s.runs, run.id = a.runId ∧ run.state = .running := by
  simp only [Store.releaseOffer]
  split
  case h_1 hn => simp_all
  case h_2 a ha =>
    split
    case isTrue => simp_all
    case isFalse ho =>
      refine .trans (h.iff_of_silent (.sync <| .of_update ?hf rfl) (.sync <| .of_eq rfl) ?hp) ?_
      case hf => exact fun _ => rfl
      case hp => simp_all
      simp_all

theorem rejectOffer_iff {attemptId token result encrypted} :
    ((s.rejectOffer attemptId token result encrypted now).persisted s).Audited ↔
      ¬∃ a, s.attempts.get? attemptId = some a ∧ a.leaseToken = token ∧ a.state = .offered ∧
        ∃ run ∈ s.runs, run.id = a.runId ∧ run.state.isTerminal := by
  simp only [Store.rejectOffer]
  split
  case h_1 hn => simp_all
  case h_2 a ha =>
    split
    case isTrue hn =>
      refine iff_of_true h ?_
      rintro ⟨a', ha', ht, ho, -⟩
      cases ha.symm.trans ha'
      simp_all
    case isFalse ho =>
      refine .trans (h.iff_of_append rfl (.sync <| .of_update ?hf rfl) ?he ?hi) ?_
      case hf => exact fun _ => rfl
      case he => exact .sync <| .of_eq rfl
      case hi => simp_all
      obtain ⟨ht, ho⟩ : a.leaseToken = token ∧ a.state = .offered := by simpa using ho
      constructor
      case mp =>
        rintro hs ⟨a', ha', -, -, run, hm, hk, ht⟩
        cases ha.symm.trans ha'
        have hs := hs run <| hk ▸ Table.get?_of_mem hm
        cases hr : run.state <;> simp_all [RunState.isTerminal]
      case mpr =>
        intro hn run hr
        have hk : run.id = a.runId := Table.key_of_get? hr
        have ht : ¬run.state.isTerminal :=
          fun ht' => hn ⟨a, ha, ht, ho, run, Table.mem_of_get? hr, hk, ht'⟩
        cases hs : run.state <;> simp_all [RunState.isTerminal]

omit h in
theorem countCancelled_audit {runs : List Run} :
    (s.countCancelled runs now).auditEvents = s.auditEvents := by
  have ⟨_, he⟩ : ∃ stats, s.countCancelled runs now = { s with dailyScheduleStats := stats } :=
    countCancelled_eq
  rw [he]

theorem cancelBatch_iff {batchId} : ((s.cancelBatch batchId now).persisted s).Audited ↔
    ¬((∃ b ∈ s.batches, b.id = batchId ∧ b.state.isOpen) ∧
      ∃ run ∈ s.runs, run.batchId = some batchId ∧ run.state.isActive) := by
  have hb : (s.batches.rows.any fun b => b.id = batchId && b.state.isOpen) ↔
      ∃ b ∈ s.batches, b.id = batchId ∧ b.state.isOpen := by
    simp [Membership.mem]
  simp only [Store.cancelBatch]
  split
  case isFalse hn => exact iff_of_true h fun ho => hn <| hb.mpr ho.left
  case isTrue ho =>
    refine .trans (h.iff_of_silent (.of_update ?hf rfl) (.append_batch <| .of_eq ?he) ?hp) ?_
    case hf => exact fun _ => rfl
    case he => exact countCancelled_audit
    case hp =>
      intro run hp
      cases hs : run.state <;> simp_all [RunState.isActive, RunState.isTerminal]
    simp only [hb.mp ho, Bool.and_eq_true, decide_eq_true_eq, true_and]

end Audited

section Health

theorem insertEvidence_echoes {e id} (h : s.insertEvidence e id now = .ok s') : s.Echoes s' := by
  simp only [insertEvidence] at h
  repeat' split at h
  all_goals cases h
  any_goals exact .refl
  exact .append_neutral (.of_eq rfl) rfl

theorem rescoreNode_echoes {order agentId} (h : s.rescoreNode order agentId now = .ok s') :
    s.Echoes s' := by
  simp only [rescoreNode] at h
  split at h
  case h_1 => contradiction
  case h_2 he =>
    cases h
    have he := ensureNodeHealth_audit he
    refine .append_unless (.of_eq ?_) fun _ => by simp [AuditEvent.runState?]
    exact he

theorem rescoreNodes_echoes {order agents} (h : rescoreNodes order now s agents = .ok s') :
    s.Echoes s' := by
  induction agents generalizing s
  case nil =>
    cases h
    exact .refl
  case cons a agents hi =>
    simp only [rescoreNodes] at h
    split at h
    case h_1 => contradiction
    case h_2 ha => exact (rescoreNode_echoes ha).trans (hi h)

theorem confirmPoison_echoes {digest fingerprint} :
    s.Echoes (s.confirmPoison digest fingerprint) := by
  have confirm {hits} (s : Store) (batchId : Uuid) :
      s.Echoes (reconcileConfirmedCollectionItems.confirm hits s batchId) :=
    .append_batch <| .of_eq rfl
  simp only [confirmPoison, reconcileConfirmedCollectionItems]
  refine .trans ?_ (.foldl confirm)
  refine .trans ?_ (.foldl fun s item => ?_)
  case refine_1 => exact .of_eq rfl
  exact .append .refl fun _ => by simp [AuditEvent.runState?]

theorem recordHealthEvidence_echoes {e nodes id order r}
    (h : s.recordHealthEvidence e nodes id order now = .ok r) : s.Echoes r.2 := by
  simp only [recordHealthEvidence] at h
  split at h
  case h_1 => contradiction
  case h_2 s₁ hi =>
    split at h
    case h_1 => contradiction
    case h_2 hr =>
      cases h
      have confirm {c : Prop} [Decidable c] {s₂ : Store} {d f} (h : s₁.Echoes s₂) :
          s₁.Echoes (if c then s₂.confirmPoison d f else s₂) := by
        split
        case isTrue => exact h.trans confirmPoison_echoes
        case isFalse => exact h
      refine (insertEvidence_echoes hi).trans <| .trans ?_ (rescoreNodes_echoes hr)
      refine .append_unless ?_ fun _ => by simp [AuditEvent.runState?]
      exact confirm (.of_eq rfl)

theorem Audited.recordHealthEvidence_iff (h : s.Audited) {e nodes id order} :
    ((s.recordHealthEvidence e nodes id order now).persisted s).Audited ↔
      ¬∃ s₁ s', s.insertEvidence e id now = .ok s₁ ∧
        s.recordHealthEvidence e nodes id order now = .ok (.confirmed, s') ∧
        ∃ run ∈ s.runs, run.state = .queued ∧
          s₁.hasEvidence e.blueprintDigest e.inputFingerprint run.id := by
  cases hr : s.recordHealthEvidence e nodes id order now
  case error => exact iff_of_true h fun ⟨_, _, _, hr, _⟩ => nomatch hr
  case ok r =>
    obtain ⟨st, s'⟩ := r
    have he := recordHealthEvidence_echoes hr
    have ⟨s₁, hi, _, hc⟩ := recordHealthEvidence_core hr
    rw [Transaction.persisted_ok]
    split at hc
    case isFalse hn =>
      have hc : s'.runs = s.runs := congrArg Core.runs hc
      refine iff_of_true (h.same hc he) fun ⟨_, _, _, hr, _⟩ => ?_
      cases hr
      contradiction
    case isTrue ht =>
      cases ht
      have hc := congrArg Core.runs hc
      refine .trans (h.iff_of_silent (.of_update ?hf hc) he ?hp) ?_
      case hf => exact fun _ => rfl
      case hp =>
        intro run hp
        simp_all
      simp [hi]

end Health

end Store

-- The transactions that put a run into another state than the one that they log.
def Op.Unaudited (s : Store) : Op → Prop
  | .releaseOffer attemptId => ∃ a, s.attempts.get? attemptId = some a ∧ a.state = .offered ∧
    ∃ run ∈ s.runs, run.id = a.runId ∧ run.state = .running
  | .rejectOffer attemptId token .. => ∃ a, s.attempts.get? attemptId = some a ∧
    a.leaseToken = token ∧ a.state = .offered ∧
    ∃ run ∈ s.runs, run.id = a.runId ∧ run.state.isTerminal
  | .cancelBatch batchId _ => (∃ b ∈ s.batches, b.id = batchId ∧ b.state.isOpen) ∧
    ∃ run ∈ s.runs, run.batchId = some batchId ∧ run.state.isActive
  | .recordHealthEvidence e nodes id order now => ∃ s₁ s', s.insertEvidence e id now = .ok s₁ ∧
    s.recordHealthEvidence e nodes id order now = .ok (.confirmed, s') ∧
    ∃ run ∈ s.runs, run.state = .queued ∧ s₁.hasEvidence e.blueprintDigest e.inputFingerprint run.id
  | _ => False

namespace Store

theorem Audited.exec_iff {s : Store} (h : s.Audited) (op : Op) :
    (s.exec op).Audited ↔ ¬op.Unaudited s := by
  cases op
  case releaseOffer => exact h.releaseOffer_iff
  case rejectOffer => exact h.rejectOffer_iff
  case cancelBatch => exact h.cancelBatch_iff
  case recordHealthEvidence => exact h.recordHealthEvidence_iff
  all_goals refine iff_of_true ?_ not_false
  case createRun => exact h.createRun
  case createCronOccurrence => exact h.createCronOccurrence
  case finalizeBatch => exact h.finalizeBatch
  case createAttempt => exact h.createAttempt
  case acceptAttempt => exact h.acceptAttempt
  case finishAttempt => exact h.finishAttempt
  case finishExpiredAttempt => exact h.finishExpiredAttempt
  case cancelRun => exact h.cancelRun
  case retryRun => exact h.retryRun
  all_goals exact exec_quiet h rfl

-- The log tells the states of the runs all along a history exactly if none of its transactions
-- changes a run behind the log's back.
theorem audited_along_iff (ops : List Op) : database.Along Audited .empty ops ↔
    (database.restrict fun s op => ¬op.Unaudited s).Valid .empty ops := by
  have he : Audited .empty := by
    intro _ _ hr
    simp [Store.empty] at hr
  exact Machine.Valid.along_iff (I := fun _ => True) (fun _ _ _ _ => trivial)
    (fun _ op _ _ h => h.exec_iff op) (.of_forall fun _ _ => trivial) trivial he

end Store

namespace Sample

-- The assignment could not be sent, and the run goes back to the queue.
def releasedOffer : List Op := [
    .createSchedule schedule 0,
    .createRun run 2 0,
    .createAttempt 10 "agent" 30 20 "token" 0,
    .releaseOffer 20
  ]

end Sample

open Sample in
theorem Store.released_offer_not_audited :
    (database.run .empty releasedOffer).runs.rows.map (fun r => (r.id, r.state)) = [(10, .queued)] ∧
    (database.run .empty releasedOffer).auditedState 10 = some .running ∧
    ¬(database.run .empty releasedOffer).Audited := by
  refine ⟨by decide, by decide, fun h => ?_⟩
  have hx := h 10 _ rfl
  revert hx
  decide

end Scheduler
