import TaskScheduler.Coordinator.Runs
import TaskScheduler.Store.Frames

namespace Scheduler

-- What the statistics of nodes are made of: whether an attempt is over, for whom, when and how.
def Attempt.result (a : Attempt) : Bool × String × Option Time × Option ExecutionOutcome :=
  (a.state.isConcluded, a.agentId, a.finishedAt, a.outcome)

-- The transactions that write the result columns of an attempt.
def Op.writesResult : Op → Bool
  | .createAttempt .. | .rejectOffer .. | .finishAttempt .. | .finishExpiredAttempt .. => true
  | _                                                                                  => false

namespace NodeProcessingStats

-- The aggregates of the backfill query for the finished attempts of one group.
def ofResults (agentId : String) (results : List (Time × Option ExecutionOutcome)) :
    Option NodeProcessingStats :=
  results.map Prod.fst |>.max?.map fun last => {
    agentId
    processedTasks  := results.length
    succeeded       := results.countP (·.2 = some .succeeded)
    failed          := results.countP fun r =>
      r.2.isSome && r.2 ≠ some .succeeded && r.2 ≠ some .cancelled
    cancelled       := results.countP (·.2 = some .cancelled)
    lastProcessedAt := last
  }

variable {agentId : String} {rs rs' : List (Time × Option ExecutionOutcome)}

theorem ofResults_perm (h : rs.Perm rs') : ofResults agentId rs = ofResults agentId rs' := by
  have hm : (rs.map Prod.fst).max? = (rs'.map Prod.fst).max? := by
    ext t
    simp only [List.max?_eq_some_iff, (h.map Prod.fst).mem_iff]
  simp only [ofResults, hm, h.length_eq, h.countP_eq]

-- The counters tell how many results went into them.
theorem length_eq_of_ofResults (h : ofResults agentId rs = ofResults agentId rs') :
    rs.length = rs'.length := by
  have hl rs : ((ofResults agentId rs).map processedTasks).getD 0 = rs.length := by
    cases rs <;> simp [ofResults, List.max?_cons]
  rw [← hl rs, ← hl rs', h]

end NodeProcessingStats

namespace Core

variable {c c' : Core} {op : Op} {entries : List LogEntry}

theorem Step.attempts_same (h : c.Step op entries c') (ho : op.writesResult = false) :
    Table.Same Attempt.result c.attempts c'.attempts := by
  -- An attempt that changes its state here was not over, and is not over afterwards.
  have hs {id a} {f : Attempt → Attempt} (ha : c.attempts.get? id = some a)
      (hc : a.state.isConcluded = false) (hf : (f a).result = (false, a.result.2)) :
      ∀ b ∈ c.attempts, decide (b.id = id) → (f b).result = b.result := by
    intro b hb hk
    obtain rfl : b = a := Table.key_injOn hb (Table.mem_of_get? ha) <|
      (of_decide_eq_true hk).trans (Table.key_of_get? ha).symm
    rw [hf, Attempt.result, hc]
  have hl {a : Attempt} (h : a.state.isLeased) : a.state.isConcluded = false := by
    generalize a.state = st at h ⊢
    cases st <;> first | rfl | contradiction
  cases h
  case offer | reject | finish | finishExpired => contradiction
  case finalize hm _ => exact hm.attempts ▸ .refl
  case accept ha hx _ hc =>
    subst hc
    exact .of_update rfl <| hs ha (hl hx) rfl
  case release ha hx =>
    rw [sync_attempts]
    exact .of_update rfl <| hs ha (hx ▸ rfl) rfl
  case expire ha hx => exact .of_update rfl <| hs ha (hl hx) rfl
  case renew => exact .of_update rfl fun _ _ _ => rfl
  case cancelRun | retryRun =>
    rw [sync_attempts]
    exact .refl
  all_goals exact .refl

end Core

namespace Store

variable {s s' : Store} {op : Op} {now : Time} {agentId : String}

-- `WHERE finished_at IS NOT NULL GROUP BY agent_id`, for the group of one agent.
def resultsOf (s : Store) (agentId : String) : List (Time × Option ExecutionOutcome) :=
  s.attempts.rows.filterMap fun a => ofAgent agentId a.result
where
  ofAgent (agentId : String) :
      Bool × String × Option Time × Option ExecutionOutcome → Option (Time × Option ExecutionOutcome)
    | (_, id, finishedAt, outcome) => if id = agentId then finishedAt.map (·, outcome) else none

-- What the migration that introduces `node_processing_stats` fills in for an agent.
def backfilledStats (s : Store) (agentId : String) : Option NodeProcessingStats :=
  NodeProcessingStats.ofResults agentId <| s.resultsOf agentId

-- The counters are the ones that the migration would compute now.
def StatsBackfilled (s : Store) : Prop :=
  ∀ agentId, s.nodeProcessingStats.get? agentId = s.backfilledStats agentId

-- A transaction takes an offer back because its node rejected it.
def rejects (s : Store) : Op → Bool
  | .rejectOffer id token result encrypted now => (s.rejectOffer id token result encrypted now).isOk
  | _                                          => false

def Unfinished (s : Store) : Prop :=
  ∀ a ∈ s.attempts, a.state.isConcluded = false → a.finishedAt = none

-- The result of an attempt that was not over yet is written to its row.
structure Concludes (s : Store) (a : Attempt) (t : Time) (outcome : ExecutionOutcome)
    (s' : Store) : Prop where
  attempt : s.attempts.get? a.id = some a
  pending : a.state.isConcluded = false
  rows    : ∃ f : Attempt → Attempt, (f a).result = (true, a.agentId, some t, some outcome) ∧
    s'.attempts.rows = s.attempts.rows.map fun b => if b.id = a.id then f b else b

-- What a transaction does to the results of attempts, and which of them it counts.
inductive Accounts (s : Store) (op : Op) (s' : Store) : Prop
  | none (ha : s.attempts.Extends Attempt.result (fun r => r.1 = false ∧ r.2.2.1 = none) s'.attempts)
      (hn : s'.nodeProcessingStats = s.nodeProcessingStats) (hr : s.rejects op = false)
  | counted {a : Attempt} {result : ExecutionResult}
      (h : s.Concludes a result.finishedAt result.outcome s')
      (hn : s'.nodeProcessingStats =
        (s.updateNodeProcessingStats a.agentId result).nodeProcessingStats)
      (hr : s.rejects op = false)
  | uncounted {a : Attempt} {t : Time} {outcome : ExecutionOutcome} (h : s.Concludes a t outcome s')
      (hn : s'.nodeProcessingStats = s.nodeProcessingStats) (hr : s.rejects op = true)

@[simp]
theorem syncBatchRunState_nodeProcessingStats {runId st} :
    (s.syncBatchRunState runId st).nodeProcessingStats = s.nodeProcessingStats := by
  have ⟨_, _, _, h⟩ := s.syncBatchRunState_eq runId st
  rw [h]

theorem not_isConcluded {expired : Bool} {st : AttemptState} (h : Concludable expired st) :
    st.isConcluded = false := by
  cases expired <;> cases st <;> simp_all [Concludable, AttemptState.isConcluded]

namespace Concludes

variable {a : Attempt} {t : Time} {outcome : ExecutionOutcome}

theorem of_update {f : Attempt → Attempt} (ha : s.attempts.get? a.id = some a)
    (hp : a.state.isConcluded = false)
    (ht : s'.attempts.rows = s.attempts.rows.map fun b => if decide (b.id = a.id) then f b else b)
    (hr : (f a).result = (true, a.agentId, some t, some outcome)) : s.Concludes a t outcome s' where
  attempt := ha
  pending := hp
  rows    := ⟨f, hr, by simpa using ht⟩

theorem resultsOf (h : s.Concludes a t outcome s') (hu : s.Unfinished) :
    (s'.resultsOf a.agentId).Perm ((t, some outcome) :: s.resultsOf a.agentId) := by
  have ⟨f, hf, ht⟩ := h.rows
  have hn := hu a (Table.mem_of_get? h.attempt) h.pending
  exact Table.filterMap_update_perm ht h.attempt (by simp [resultsOf.ofAgent, Attempt.result, hn])
    (by simp [resultsOf.ofAgent, hf])

theorem eq_of_id (h : s.Concludes a t outcome s') {b : Attempt} (hb : b ∈ s.attempts)
    (hk : b.id = a.id) : b = a :=
  Table.key_injOn hb (Table.mem_of_get? h.attempt) hk

theorem resultsOf_other (h : s.Concludes a t outcome s') (hn : a.agentId ≠ agentId) :
    s'.resultsOf agentId = s.resultsOf agentId := by
  have ⟨f, hf, ht⟩ := h.rows
  have hs : Table.Same (resultsOf.ofAgent agentId ·.result) s.attempts s'.attempts := by
    refine .of_update (p := (·.id = a.id)) (f := f) (by simpa using ht) fun b hb hk => ?_
    obtain rfl := h.eq_of_id hb (of_decide_eq_true hk)
    rw [hf]
    simp [resultsOf.ofAgent, Attempt.result, hn]
  exact Table.Extends.filterMap_eq (d := id) (P := fun _ => False) (.of_same hs) nofun

theorem unfinished (h : s.Concludes a t outcome s') (hu : s.Unfinished) : s'.Unfinished := by
  have ⟨f, hf, ht⟩ := h.rows
  intro b hb hc
  rw [← Table.mem_rows, ht] at hb
  obtain ⟨b', hm, rfl⟩ := List.mem_map.mp hb
  split at hc
  case isTrue hk =>
    obtain rfl := h.eq_of_id hm hk
    simp [hc, Attempt.result] at hf
  case isFalse hk => simpa [hk] using hu b' hm hc

end Concludes

namespace Accounts

theorem unchanged (h : s.rejects op = false) : s.Accounts op s :=
  .none (.of_same .refl) rfl h

theorem of_finishAttemptInner {id token result encrypted expired random} {r}
    (h : s.finishAttemptInner id token result encrypted expired random now = .ok r)
    (hr : s.rejects op = false) : s.Accounts op r.2 := by
  simp only [finishAttemptInner] at h
  repeat' split at h
  all_goals cases h
  any_goals exact unchanged hr
  case _ a ha _ run _ _ h₁ h₂ h₃ _ =>
    obtain rfl : a.id = id := Table.key_of_get? ha
    exact .counted (.of_update ha (not_isConcluded <| concludable h₁ h₂ h₃) rfl rfl) rfl hr
  case _ a ha _ run _ _ h₁ h₂ h₃ _ =>
    obtain rfl : a.id = id := Table.key_of_get? ha
    have ht : (s.applyResult a run result encrypted random now).attempts =
        s.attempts.update (·.id = a.id) (·.recordResult .finished result encrypted) := by
      simp only [applyResult, appendAudit_attempts, syncBatchRunState_attempts]
      rfl
    have hp := not_isConcluded <| concludable h₁ h₂ h₃
    refine .counted (.of_update ha hp (congrArg Table.rows ht) rfl) ?_ hr
    simp [applyResult, appendAudit, updateDailyScheduleStats, updateNodeProcessingStats]

theorem finishAttempt {id token result encrypted random} :
    s.Accounts (.finishAttempt id token result encrypted random now)
      ((s.finishAttempt id token result encrypted random now).persisted s) := by
  simp only [Store.finishAttempt]
  repeat' split
  case _ | _ => exact unchanged rfl
  case _ h => exact of_finishAttemptInner h rfl

theorem finishExpiredAttempt {id token result encrypted random} :
    s.Accounts (.finishExpiredAttempt id token result encrypted random now)
      ((s.finishExpiredAttempt id token result encrypted random now).persisted s) := by
  unfold Store.finishExpiredAttempt
  cases h : s.finishAttemptInner id token result encrypted true random now
  case error => exact unchanged rfl
  case ok => exact of_finishAttemptInner h rfl

theorem createAttempt {runId agentId lease id token} :
    s.Accounts (.createAttempt runId agentId lease id token now)
      ((s.createAttempt runId agentId lease id token now).persisted s) := by
  simp only [Store.createAttempt]
  repeat' split
  case _ | _ | _ => exact unchanged rfl
  case _ hi =>
    refine .none ?_ (by simp [appendAudit]) rfl
    rw [Transaction.persisted_commit, appendAudit_attempts, syncBatchRunState_attempts]
    exact .of_insert hi ⟨rfl, rfl⟩

theorem rejectOffer {id token result encrypted} :
    s.Accounts (.rejectOffer id token result encrypted now)
      ((s.rejectOffer id token result encrypted now).persisted s) := by
  cases h : s.rejectOffer id token result encrypted now
  case error => exact unchanged <| by simp [rejects, h, Except.isOk, Except.toBool]
  case ok r =>
    have hr : s.rejects (.rejectOffer id token result encrypted now) := by
      simp [rejects, h, Except.isOk, Except.toBool]
    simp only [Store.rejectOffer] at h
    repeat' split at h
    all_goals cases h
    case _ a ha hc =>
      obtain rfl : a.id = id := Table.key_of_get? ha
      have hs : a.state.isConcluded = false := by
        simp only [Bool.or_eq_true, decide_eq_true_eq, not_or, not_not] at hc
        rw [hc.right]
        rfl
      simp only [Transaction.persisted, requeueRun] at hr ⊢
      refine .uncounted (.of_update ha hs (congrArg Table.rows syncBatchRunState_attempts) rfl) ?_ hr
      simp [appendAudit]

theorem of_other (ho : op.writesResult = false) (hw : .nodeProcessingStats ∉ op.writes)
    (hr : s.rejects op = false) : s.Accounts op (s.exec op) :=
  .none (.of_same <| (s.exec_step op).attempts_same ho) ((s.exec_frame op).nodeProcessingStats hw) hr

end Accounts

theorem exec_accounts (s : Store) (op : Op) : s.Accounts op (s.exec op) := by
  cases op
  case finishAttempt => exact .finishAttempt
  case finishExpiredAttempt => exact .finishExpiredAttempt
  case createAttempt => exact .createAttempt
  case rejectOffer => exact .rejectOffer
  all_goals exact .of_other rfl (by simp [Op.writes]) rfl

theorem Unfinished.exec (h : s.Unfinished) (op : Op) : (s.exec op).Unfinished := by
  cases s.exec_accounts op
  case none ha _ _ =>
    intro b hb hc
    obtain ⟨a, hm, he⟩ | hp := ha.exists_left hb
    case inl =>
      simp only [Attempt.result, Prod.mk.injEq] at he
      exact he.right.right.left ▸ h a hm (he.left.trans hc)
    case inr => exact hp.right
  case counted hc _ _ | uncounted hc _ _ => exact hc.unfinished h

-- Counting one result is what the backfill does with one more row.
theorem get?_updateNodeProcessingStats {result : ExecutionResult} {rs}
    (h : s.nodeProcessingStats.get? agentId = NodeProcessingStats.ofResults agentId rs) :
    (s.updateNodeProcessingStats agentId result).nodeProcessingStats.get? agentId =
      NodeProcessingStats.ofResults agentId ((result.finishedAt, some result.outcome) :: rs) := by
  simp only [updateNodeProcessingStats, Table.get?_upsert, Keyed.key, if_true, h]
  cases rs
  case nil => cases result.outcome <;> simp [NodeProcessingStats.ofResults]
  case cons r rs =>
    have hm : ((r :: rs).map Prod.fst).max? ≠ none := by simp
    obtain ⟨last, hl⟩ := Option.ne_none_iff_exists'.mp hm
    have hm : ((result.finishedAt :: (r :: rs).map Prod.fst)).max? =
        some (max last result.finishedAt) := by
      rw [List.max?_cons, hl, Option.elim_some, max_comm]
    generalize r :: rs = rs at hl hm
    simp only [NodeProcessingStats.ofResults, List.map_cons, hm, hl, List.length_cons, List.countP_cons]
    cases result.outcome <;> simp

theorem StatsBackfilled.exec_iff (h : s.StatsBackfilled) (hu : s.Unfinished) (op : Op) :
    (s.exec op).StatsBackfilled ↔ s.rejects op = false := by
  cases s.exec_accounts op
  case none ha hn hr =>
    refine iff_of_true (fun agentId => ?_) hr
    have he : (s.exec op).resultsOf agentId = s.resultsOf agentId :=
      ha.filterMap_eq fun r hr => by simp [resultsOf.ofAgent, hr.right]
    rw [hn, h, backfilledStats, backfilledStats, he]
  case counted a result hc hn hr =>
    refine iff_of_true (fun agentId => ?_) hr
    rw [hn]
    by_cases ha : a.agentId = agentId
    case pos =>
      subst ha
      rw [get?_updateNodeProcessingStats (h _), backfilledStats]
      exact (NodeProcessingStats.ofResults_perm <| hc.resultsOf hu).symm
    case neg =>
      simp only [updateNodeProcessingStats, Table.get?_upsert, Keyed.key, ha, if_false]
      rw [h, backfilledStats, backfilledStats, hc.resultsOf_other ha]
  case uncounted a t outcome hc hn hr =>
    refine iff_of_false (fun hx => ?_) (by simp [hr])
    have he := (h a.agentId).symm.trans <| (congrArg (Table.get? · _) hn).symm.trans (hx a.agentId)
    have hl := NodeProcessingStats.length_eq_of_ofResults he
    simp [(hc.resultsOf hu).length_eq] at hl

-- The counters agree with the migration up to the first rejected offer: that attempt is finished and
-- has an outcome, but was never counted.
theorem stats_backfilled_iff (ops : List Op) : database.Along StatsBackfilled .empty ops ↔
    (database.restrict fun s op => s.rejects op = false).Valid .empty ops := by
  refine Machine.Valid.along_iff (I := Unfinished) (fun s op h _ => h.exec op)
    (fun s op hu _ h => h.exec_iff hu op) (.of_forall fun _ _ => trivial) ?_ fun _ => rfl
  exact fun a ha => absurd ha Table.not_mem_empty

end Store

namespace Sample

-- The agent cannot bind the parameters of the run.
def rejectedOffer : List Action :=
  offered ++ [.store (.rejectOffer 20 "token" (result .infrastructureError) none 500)]

end Sample

open Sample in
example : (after succeeded).store.nodeProcessingStats.get? "agent" =
    (after succeeded).store.backfilledStats "agent" := by
  decide

open Sample in
theorem rejected_offer_not_counted : ∃ σ : System, σ.Reachable ∧
    σ.store.nodeProcessingStats.get? "agent" = none ∧
    σ.store.backfilledStats "agent" = some {
      agentId         := "agent"
      processedTasks  := 1
      succeeded       := 0
      failed          := 1
      cancelled       := 0
      lastProcessedAt := 500
    } :=
  ⟨after rejectedOffer, reachable_after <| by decide, by decide, by decide⟩

end Scheduler
