import TaskScheduler.Batches.Consistency
import TaskScheduler.Coordinator.Runs

namespace Scheduler

-- Batches and their items tell the truth about the runs.
structure Store.Consistent (s : Store) : Prop where
  items     : ∀ item ∈ s.batchItems, ∀ r ∈ item.runId, ∃ run ∈ s.runs, run.id = r ∧
    item.state.Reflects run.state
  running   : ∀ batch ∈ s.batches, batch.finalizedAt.isSome → batch.state ≠ .cancelled →
    (batch.state = .running ↔ ∃ run ∈ s.runs, run.batchId = some batch.id ∧ run.state.isActive)
  completed : ∀ batch ∈ s.batches, batch.state.isCompleted → ∀ run ∈ s.runs,
    run.batchId = some batch.id → run.state.isTerminal

instance {s : Store} : Decidable s.Consistent :=
  decidable_of_iff (_ ∧ _ ∧ _) ⟨fun ⟨h₁, h₂, h₃⟩ => ⟨h₁, h₂, h₃⟩, fun h => ⟨h.items, h.running, h.completed⟩⟩

-- Completed batches need no condition of their own: a batch completes when its last run does.
theorem Store.consistent_iff {s : Store} (l : s.core.Linked) : s.Consistent ↔ s.core.Agrees := by
  constructor
  case mp =>
    refine fun h => ⟨fun i hi run hr he => ?_, h.running⟩
    have ⟨run', hr', hk, hx⟩ := h.items i hi run.id he
    exact Table.key_injOn hr' hr hk ▸ hx
  case mpr =>
    refine fun h => ⟨fun i hi r hr => ?_, h.batches, fun b hb hc run hr hx => ?_⟩
    · have ⟨run, hm, he⟩ := l.item i hi r hr
      have hk : run.id = r := congrArg Prod.fst he
      exact ⟨run, hm, hk, h.items i hi run hm (hk ▸ hr)⟩
    · have hn : b.state ≠ .running ∧ b.state ≠ .cancelled := by
        cases hs : b.state <;> simp_all [BatchState.isCompleted]
      have hf := (l.staged b hb).opened (.inr hc)
      have ha := mt (h.batches b hb hf hn.right).mpr hn.left
      by_contra ht
      exact ha ⟨run, hr, hx, by simpa [RunState.isActive] using ht⟩

-- An offer of the run can be made.
def Store.Dispatchable (s : Store) (runId : Uuid) : Prop :=
  ∃ agentId lease id token now attempt s',
    s.createAttempt runId agentId lease id token now = .ok (some attempt, s')

namespace System

variable {σ : System} {act : Action} {as : List Action}

-- An action takes an offer back whose run, a child of a batch, was cancelled in the meantime.
def requeuesCancelled (σ : System) : Action → Bool
  | .store op   => σ.store.core.requeuesCancelled op
  | .deliver .. => false

theorem Reachable.linked (h : σ.Reachable) : σ.store.core.Linked :=
  h.store.linked

theorem Reachable.run_of_offer (h : σ.Reachable) {a : Attempt} (ha : a ∈ σ.store.core.attempts)
    (hs : a.state = .offered) : ∃ run, σ.store.core.runs.get? a.runId = some run ∧
      (run.state = .running ∨ run.state = .cancelled) :=
  h.run_of_active ha (hs ▸ rfl)

theorem requeueRun_core {s : Store} {r : Uuid} {f : Run → Run} {hf} :
    (s.requeueRun r f hf).core = (s.core.setRun r (· = .running) f hf).sync r .queued := by
  rw [Store.requeueRun, Store.core_syncBatchRunState]
  rfl

theorem not_agrees_of_requeuesCancelled (l : σ.store.core.Linked) (h : σ.requeuesCancelled act) :
    ¬(σ.exec act).store.core.Agrees := by
  cases act
  case deliver => contradiction
  case store op =>
    cases op
    case releaseOffer id =>
      simp only [requeuesCancelled, Core.requeuesCancelled, Core.isStaleOffer, Option.any_eq_true,
        Bool.and_eq_true, decide_eq_true_eq, Store.core_attempts] at h
      obtain ⟨a, ha, ⟨ho, -⟩, run, hr, hc, hb⟩ := h
      simp only [exec, Store.exec, Store.releaseOffer, ha, ho, ne_eq, not_true_eq_false, if_false,
        Transaction.persisted_commit, requeueRun_core]
      exact Core.not_agrees_requeue l hr hc hb
    case rejectOffer id token result encrypted now =>
      simp only [requeuesCancelled, Core.requeuesCancelled, Core.isStaleOffer, Option.any_eq_true,
        Bool.and_eq_true, decide_eq_true_eq, Store.core_attempts] at h
      obtain ⟨a, ha, ⟨ho, ht⟩, run, hr, hc, hb⟩ := h
      simp only [exec, Store.exec, Store.rejectOffer, ha, ho, ht, ne_eq, not_true_eq_false, decide_false,
        Bool.or_self, Bool.false_eq_true, if_false, Transaction.persisted_commit, Store.core_appendAudit,
        requeueRun_core]
      exact Core.not_agrees_requeue l hr hc hb
    all_goals contradiction

-- The agreement survives an action exactly when the action does not requeue a cancelled run.
theorem Reachable.consistent_exec_iff (h : σ.Reachable) (ha : σ.Enabled act) (hc : σ.store.Consistent) :
    (σ.exec act).store.Consistent ↔ ¬σ.requeuesCancelled act := by
  have hr : (σ.exec act).Reachable := h.exec ha
  rw [Store.consistent_iff h.linked] at hc
  rw [Store.consistent_iff hr.linked]
  constructor
  case mp => exact fun hx hr => not_agrees_of_requeuesCancelled h.linked hr hx
  case mpr =>
    intro hn
    cases act
    case deliver => exact hc
    case store op =>
      exact hc.step h.linked (σ.store.exec_step op) (fun a => h.run_of_offer) (eq_false_of_ne_true hn)

theorem consistent_initial : System.initial.store.Consistent := by
  decide

-- Batches stay consistent along a run of the coordinator exactly as long as no offer is taken back
-- whose run was cancelled.
theorem batches_consistent_iff (v : coordinator.Valid .initial as) :
    coordinator.Along (·.store.Consistent) .initial as ↔
      (coordinator.restrict fun σ act => ¬σ.requeuesCancelled act).Valid .initial as :=
  v.along_iff (I := Reachable) (fun _ _ h ha => h.exec ha) (fun _ _ h ha hc => h.consistent_exec_iff ha hc)
    .refl consistent_initial

-- An action retries a failed child of the batch.
def retriesChild (σ : System) (batchId : Uuid) : Action → Bool
  | .store (.retryRun runId _) =>
    (σ.store.runs.get? runId).any fun run => run.batchId = some batchId && run.state = .failed
  | _ => false

-- The batch was cancelled and none of its runs is active.
structure Halted (σ : System) (batchId : Uuid) : Prop where
  reachable : σ.Reachable
  cancelled : σ.store.core.IsCancelled batchId
  terminal  : ∀ run ∈ σ.store.runs, run.batchId = some batchId → run.state.isTerminal

theorem Halted.of_cancelBatch (h : σ.Reachable) {batchId : Uuid} {now : Time} {r}
    (hc : σ.store.cancelBatch batchId now = .ok r) :
    (σ.exec (.store (.cancelBatch batchId now))).Halted batchId := by
  obtain ⟨_, he⟩ | ⟨b, _, hb, ho, he, hx⟩ := σ.store.cancelBatch_cases batchId now
  case inl => simp [he] at hc
  case inr =>
    have hs : (σ.exec (.store (.cancelBatch batchId now))).store.core =
        σ.store.core.cancelBatch batchId := by
      rw [exec, Store.exec, he, Transaction.persisted_ok, hx]
    have hk : b.id = batchId := Table.key_of_get? hb
    constructor
    case reachable =>
      have ha : coordinator.Enabled σ (.store (.cancelBatch batchId now)) := fun _ h => by cases h
      exact h.exec ha
    case cancelled =>
      rw [hs]
      refine ⟨_, List.mem_map.mpr ⟨b, Table.mem_of_get? hb, if_pos ?_⟩, hk, rfl⟩
      simp [hk, ho]
    case terminal =>
      rw [← Store.core_runs, hs]
      refine List.forall_mem_map.mpr fun run _ hb => ?_
      split at hb
      case isTrue hp => simp only [hp, if_true, RunState.isTerminal]
      case isFalse hp =>
        simp only [hp]
        simpa [hb, RunState.isActive] using hp

theorem Halted.exec {batchId : Uuid} (h : σ.Halted batchId) (ha : σ.Enabled act)
    (hn : ¬σ.retriesChild batchId act) : (σ.exec act).Halted batchId where
  reachable := h.reachable.exec ha
  cancelled := by
    cases act
    case store op => exact h.cancelled.step (σ.store.exec_step op)
    case deliver => exact h.cancelled
  terminal run' hr' hb' := by
    have hx : ∃ run ∈ σ.store.runs, run.id = run'.id ∧ run.batchId = some batchId := by
      cases act
      case deliver => exact ⟨run', hr', rfl, hb'⟩
      case store op =>
        obtain hx | ⟨b, hb, hk, hs⟩ := (σ.store.exec_step op).child hr' hb'
        case inl => exact hx
        case inr =>
          have ⟨b', hb', hk', hs'⟩ := h.cancelled
          rw [Table.key_injOn hb hb' (hk.trans hk'.symm), hs'] at hs
          contradiction
    have ⟨run, hr, hi, hb⟩ := hx
    have ht := h.terminal run hr hb
    by_cases he : run'.state = run.state
    case pos => exact he ▸ ht
    case neg =>
      have ⟨hf, now, hact⟩ := h.reachable.terminal_left ha hr hr' hi.symm ht he
      have hg : σ.store.runs.get? run.id = some run := Table.get?_of_mem hr
      simp [hact, retriesChild, hg, hb, hf] at hn

theorem Halted.not_dispatchable {batchId : Uuid} (h : σ.Halted batchId) {run : Run}
    (hr : run ∈ σ.store.runs) (hb : run.batchId = some batchId) : ¬σ.store.Dispatchable run.id := by
  intro ⟨agentId, lease, id, token, now, attempt, s', he⟩
  have hg : σ.store.runs.get? run.id = some run := Table.get?_of_mem hr
  have hs : run.state ≠ .queued := fun hs => by
    simpa [hs, RunState.isTerminal] using h.terminal run hr hb
  simp [Store.createAttempt, hg, hs, Transaction.commit] at he

-- Once a batch is cancelled, its runs stay terminal and are not dispatched, unless a failed one is
-- retried.
theorem cancelled_batch_stays_stopped (h : σ.Reachable) {batchId : Uuid} {now : Time} {r}
    (hc : σ.store.cancelBatch batchId now = .ok r)
    (v : (coordinator.restrict fun σ act => ¬σ.retriesChild batchId act).Valid
      (σ.exec (.store (.cancelBatch batchId now))) as) :
    ∀ run ∈ (coordinator.run σ (.store (.cancelBatch batchId now) :: as)).store.runs,
      run.batchId = some batchId → run.state.isTerminal ∧
        ¬(coordinator.run σ (.store (.cancelBatch batchId now) :: as)).store.Dispatchable run.id := by
  have hx : (coordinator.run (σ.exec (.store (.cancelBatch batchId now))) as).Halted batchId :=
    v.invariant (I := (·.Halted batchId)) (fun _ _ hi ha => hi.exec ha.left ha.right)
      (.of_cancelBatch h hc)
  exact fun run hr hb => ⟨hx.terminal run hr hb, hx.not_dispatchable hr hb⟩

end System

namespace Sample

-- A batch with two items, which become the runs 201 and 202.
def batch : NewBatch where
  id                  := 100
  scheduleId          := 1
  scheduleRevision    := 1
  triggerKind         := .manual
  scheduledAt         := 0
  idempotencyKey      := none
  encryptedSnapshot   := "snapshot"
  encryptedOverrides  := none
  snapshotDigest      := "digest"
  pageSize            := 10
  maxItems            := 10
  maxActiveRuns       := 10
  poisonDistinctNodes := 2

def item (id index : Nat) (key : String) : NewBatchItem where
  id
  itemIndex             := index
  providerKeyHmac       := key
  encryptedSnapshot     := some (some ⟨"blueprint", "parameters"⟩)
  parametersDigest      := "digest"
  state                 := .ready
  failureCode           := none
  maxAttempts           := some 1
  initialBackoffSeconds := some 1
  backoffCapSeconds     := some 1

def page : CommitCollectionPage where
  batchId                  := 100
  leaseToken               := "lease"
  expectedGeneration       := 0
  requestCursorDigest      := startCursorDigest
  pageDigest               := "page"
  collectionSnapshot       := "collection"
  collectionSnapshotDigest := "digest"
  nextCursor               := none
  nextCursorDigest         := "end"
  isFinal                  := true
  items                    := [item 101 0 "first", item 102 1 "second"]

def collected : List Action := [
    .store (.createSchedule schedule 0),
    .store (.createBatch batch 2 0),
    .store (.claimCollectionBatch 100 "worker" 60 "lease" 0),
    .store (.commitCollectionPage page 0),
    .store (.finalizeBatch 100 "lease" (· + 100) 0)
  ]

def offeredChild : List Action :=
  collected ++ [.store (.createAttempt 201 "agent" 30 20 "token" 0), .deliver 20 .sent]

-- The first child is cancelled while its offer is open.
def cancelledChild : List Action :=
  offeredChild ++ [.store (.cancelRun 201 0)]

def cancelledBatch : List Action :=
  offeredChild ++ [.store (.cancelBatch 100 0)]

-- The first child fails before the batch is cancelled, and is retried afterwards.
def retriedChild : List Action :=
  offeredChild ++ [
    .store (.acceptAttempt 20 "token" 30 0),
    .store (.finishAttempt 20 "token" (result .failed) none 0 1000),
    .store (.cancelBatch 100 2000),
    .store (.retryRun 201 3000),
    .store (.createAttempt 201 "agent" 30 21 "token" 4000)
  ]

-- The agent rejects the offer of the child afterwards.
def rejectedBatch : List Action :=
  cancelledBatch ++ [.store (.rejectOffer 20 "token" (result .failed) none 0)]

-- The agent rejects the offer afterwards.
def rejectedChild : List Action :=
  cancelledChild ++ [.store (.rejectOffer 20 "token" (result .infrastructureError) none 0)]

end Sample

namespace System

open Sample

theorem batches_consistent_iff_cancelledChild :
    coordinator.Along (·.store.Consistent) .initial cancelledChild :=
  (batches_consistent_iff (by decide)).mpr (by decide)

-- The item of the cancelled run is queued again.
theorem batches_inconsistent : ∃ σ : System, σ.Reachable ∧ ¬σ.store.Consistent :=
  ⟨after rejectedChild, reachable_after <| by decide, by decide⟩

theorem cancelled_batch_stays_stopped_rejected :
    (∃ run ∈ (after rejectedBatch).store.runs, run.batchId = some 100) ∧
      ∀ run ∈ (after rejectedBatch).store.runs, run.batchId = some 100 → run.state.isTerminal := by
  have hc : ∃ r, (after offeredChild).store.cancelBatch 100 0 = .ok r := ⟨_, rfl⟩
  have ⟨r, hc⟩ := hc
  refine ⟨by decide, fun run hr hb => ?_⟩
  exact cancelled_batch_stays_stopped (reachable_after <| by decide) hc (by decide) run hr hb |>.left

-- A failed child is retried after its batch was cancelled, and dispatched again.
theorem cancelled_batch_restarts : ∃ σ : System, σ.Reachable ∧ ∃ batch ∈ σ.store.batches,
    batch.state = .cancelled ∧ ∃ run ∈ σ.store.runs, run.batchId = some batch.id ∧ run.state = .running :=
  ⟨after retriedChild, reachable_after <| by decide, by decide⟩

end System

end Scheduler
