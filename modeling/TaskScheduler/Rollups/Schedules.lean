import TaskScheduler.Coordinator.Runs
import TaskScheduler.Health.Poisoning
import TaskScheduler.Store.Frames

namespace Scheduler

-- How much a run in this state adds to the numbers of succeeded, failed and cancelled runs.
def RunState.tally : RunState → Nat × Nat × Nat
  | succeeded        => (1, 0, 0)
  | failed           => (0, 1, 0)
  | cancelled        => (0, 0, 1)
  | queued | running => 0

def DailyScheduleStats.tally (d : DailyScheduleStats) : Nat × Nat × Nat :=
  (d.succeeded, d.businessFailed + d.infrastructureFailed, d.cancelled)

-- What a row adds to the numbers of one schedule.
def Run.share (scheduleId : Uuid) (run : Run) : Nat × Nat × Nat :=
  if run.scheduleId = scheduleId then run.state.tally else 0

def DailyScheduleStats.share (scheduleId : Uuid) (d : DailyScheduleStats) : Nat × Nat × Nat :=
  if d.scheduleId = scheduleId then d.tally else 0

-- The transactions that lead runs into final states or out of them.
def Op.settles : Op → Bool
  | .finishAttempt .. | .finishExpiredAttempt .. | .cancelRun .. | .cancelBatch .. | .retryRun ..
  | .recordHealthEvidence ..  => true
  | _                         => false

theorem RunState.tally_active {st : RunState} (h : st.isActive) : st.tally = 0 := by
  cases st <;> first | rfl | contradiction

theorem Run.share_active {run : Run} {g : Uuid} (h : run.state.isActive) : run.share g = 0 := by
  simp [share, RunState.tally_active h]

namespace Core

variable {c c' : Core} {op : Op} {entries : List LogEntry} {g : Uuid}

theorem Materializes.shares {batch items} (h : Materializes batch items c c') :
    c.runs.Extends (Run.share g) (· = 0) c'.runs := by
  induction h
  case nil => exact .of_same .refl
  case cons hf _ _ hr _ hi =>
    exact .trans (.of_insert hr <| Run.share_active <| by rw [hf.state]; rfl) hi

theorem Step.shares (h : c.Step op entries c') (ho : op.settles = false) :
    c.runs.Extends (Run.share g) (· = 0) c'.runs := by
  cases h
  case finish | finishExpired | cancelRun | cancelBatch | retryRun | poison => contradiction
  case queueRun hf _ _ hi => exact .of_insert hi <| Run.share_active <| by rw [hf.state]; rfl
  case finalize hm _ => exact hm.shares
  case offer | release | reject =>
    rw [sync_runs]
    refine .of_same <| .of_update rfl fun run _ hp => ?_
    simp only [Bool.and_eq_true, decide_eq_true_eq] at hp
    simp [Run.share, hp.right, RunState.tally]
  case accept hc =>
    subst hc
    exact .of_same <| .of_update rfl fun _ _ _ => rfl
  all_goals exact .of_same .refl

end Core

namespace Store

variable {s s' : Store} {op : Op} {now : Time} {g : Uuid} {run : Run}

def dailyTotals (s : Store) (scheduleId : Uuid) : Nat × Nat × Nat :=
  s.dailyScheduleStats.rows.map (·.share scheduleId) |>.sum

def runTotals (s : Store) (scheduleId : Uuid) : Nat × Nat × Nat :=
  s.runs.rows.map (·.share scheduleId) |>.sum

-- The rollups of each schedule add up to the states of its runs.
structure RollupsMatch (s : Store) : Prop where
  succeeded : ∀ scheduleId,
    (s.dailyScheduleStats.select (·.scheduleId = scheduleId) |>.map (·.succeeded)).sum =
      (s.runs.select (·.scheduleId = scheduleId)).countP (·.state = .succeeded)
  failed    : ∀ scheduleId,
    (s.dailyScheduleStats.select (·.scheduleId = scheduleId)
      |>.map fun d => d.businessFailed + d.infrastructureFailed).sum =
      (s.runs.select (·.scheduleId = scheduleId)).countP (·.state = .failed)
  cancelled : ∀ scheduleId,
    (s.dailyScheduleStats.select (·.scheduleId = scheduleId) |>.map (·.cancelled)).sum =
      (s.runs.select (·.scheduleId = scheduleId)).countP (·.state = .cancelled)

theorem dailyTotals_eq : s.dailyTotals g =
    let rows := s.dailyScheduleStats.select (·.scheduleId = g)
    ((rows.map (·.succeeded)).sum, (rows.map fun d => d.businessFailed + d.infrastructureFailed).sum,
      (rows.map (·.cancelled)).sum) := by
  simp only [dailyTotals, Table.select]
  induction s.dailyScheduleStats.rows
  case nil => rfl
  case cons d rows hi =>
    rw [List.map_cons, List.sum_cons, hi]
    by_cases hd : d.scheduleId = g <;> simp [hd, DailyScheduleStats.share, DailyScheduleStats.tally]

theorem runTotals_eq : s.runTotals g =
    let rows := s.runs.select (·.scheduleId = g)
    (rows.countP (·.state = .succeeded), rows.countP (·.state = .failed),
      rows.countP (·.state = .cancelled)) := by
  simp only [runTotals, Table.select]
  induction s.runs.rows
  case nil => rfl
  case cons run rows hi =>
    rw [List.map_cons, List.sum_cons, hi]
    by_cases hr : run.scheduleId = g
    case neg => simp [hr, Run.share]
    case pos => cases hs : run.state <;> simp [hr, hs, Run.share, RunState.tally, add_comm]

theorem rollupsMatch_iff : s.RollupsMatch ↔ ∀ g, s.dailyTotals g = s.runTotals g := by
  simp only [dailyTotals_eq, runTotals_eq, Prod.mk.injEq]
  exact ⟨fun h g => ⟨h.succeeded g, h.failed g, h.cancelled g⟩,
    fun h => ⟨fun g => (h g).left, fun g => (h g).right.left, fun g => (h g).right.right⟩⟩

theorem dailyTotals_sync {runId st entity event} :
    ((s.syncBatchRunState runId st).appendAudit entity event).dailyTotals g = s.dailyTotals g := by
  have ⟨_, _, _, h⟩ := s.syncBatchRunState_eq runId st
  rw [h]
  rfl

theorem runTotals_sync {runId st entity event} :
    ((s.syncBatchRunState runId st).appendAudit entity event).runTotals g = s.runTotals g := by
  have ⟨_, _, _, h⟩ := s.syncBatchRunState_eq runId st
  rw [h]
  rfl

section Update

variable {p : Run → Bool} {f : Run → Run} {x : RunState} {d : Nat × Nat × Nat}
variable (ht : s'.runs.rows = s.runs.rows.map fun r => if p r then f r else r)

theorem sum_tally {runs : List Run} : (runs.map fun r => if r.scheduleId = g then x.tally else 0).sum =
    runs.countP (·.scheduleId = g) • x.tally := by
  induction runs
  case nil => simp
  case cons r runs hi => by_cases hg : r.scheduleId = g <;> simp [hg, hi, add_smul, add_comm]

include ht

-- Some active runs go to another state.
theorem runTotals_enter (hp : ∀ r ∈ s.runs, p r → r.state.isActive)
    (hf : ∀ r, (f r).scheduleId = r.scheduleId ∧ (f r).state = x)
    (hd : (s.runs.select p).countP (·.scheduleId = g) • x.tally = d) :
    s'.runTotals g = s.runTotals g + d := by
  rw [← hd, ← sum_tally]
  refine Table.sum_update_add ht fun r hr hx => ?_
  rw [Run.share_active (hp r hr hx), zero_add, Run.share, (hf r).left, (hf r).right]

-- Some runs become active again.
theorem runTotals_leave (hp : ∀ r ∈ s.runs, p r → r.state = x)
    (hf : ∀ r, (f r).scheduleId = r.scheduleId ∧ (f r).state.isActive)
    (hd : (s.runs.select p).countP (·.scheduleId = g) • x.tally = d) :
    s'.runTotals g + d = s.runTotals g := by
  rw [← hd, ← sum_tally]
  refine (Table.sum_update (e := fun _ => 0) ht fun r hr hx => ?_).trans (by simp [runTotals])
  rw [Run.share_active (hf r).right, zero_add, add_zero, Run.share, hp r hr hx]

end Update

theorem countP_select_run {p : RunState → Bool} (hr : s.runs.get? run.id = some run)
    (hp : p run.state) : (s.runs.select fun r => r.id = run.id && p r.state).countP (·.scheduleId = g) =
      if run.scheduleId = g then 1 else 0 := by
  have hk : s.runs.select (·.id = run.id) = [run] := Table.select_key hr
  have hs : (s.runs.select fun r => r.id = run.id && p r.state) = s.runs.select (·.id = run.id) := by
    refine Table.select_congr fun r hm => ?_
    by_cases he : r.id = run.id
    case pos => simp [Table.key_injOn hm (Table.mem_of_get? hr) he, hp]
    case neg => simp [he]
  simp [hs, hk, List.countP_singleton]

section Rollups

theorem dailyTotals_updateDailyScheduleStats {state result} (h : state ≠ .cancelled) :
    (s.updateDailyScheduleStats run state result).dailyTotals g =
      s.dailyTotals g + if run.scheduleId = g then state.tally else 0 := by
  have ht : (if state = .succeeded then 1 else 0,
      (if state = .failed && isBusinessFailure result.diagnostic then 1 else 0) +
        if state = .failed && !(state = .failed && isBusinessFailure result.diagnostic) then 1 else 0,
      0) = state.tally := by
    cases state <;> cases isBusinessFailure result.diagnostic <;> first | rfl | contradiction
  refine (Table.sum_upsert fun d hk => ?_).trans ?_
  · have hd : d.scheduleId = run.scheduleId := congrArg Prod.fst hk
    simp only [DailyScheduleStats.share, hd]
    split
    case isTrue => simp [DailyScheduleStats.tally, add_add_add_comm]
    case isFalse => rfl
  · rw [← ht]
    rfl

theorem dailyTotals_incrementCancelledRollup {scheduleId n} :
    (s.incrementCancelledRollup scheduleId n now).dailyTotals g =
      s.dailyTotals g + if scheduleId = g then (0, 0, n) else 0 := by
  refine (Table.sum_upsert fun d hk => ?_).trans rfl
  have hd : d.scheduleId = scheduleId := congrArg Prod.fst hk
  simp only [DailyScheduleStats.share, hd]
  split
  case isTrue => simp [DailyScheduleStats.tally]
  case isFalse => rfl

theorem dailyTotals_countCancelled {runs : List Run} :
    (s.countCancelled runs now).dailyTotals g =
      s.dailyTotals g + (0, 0, runs.countP (·.scheduleId = g)) := by
  have hf {ids : List Uuid} (nd : ids.Nodup) {s : Store} :
      (ids.foldl (countCancelled.countGroup runs now) s).dailyTotals g =
        s.dailyTotals g + if g ∈ ids then (0, 0, runs.countP (·.scheduleId = g)) else 0 := by
    induction ids generalizing s
    case nil => simp
    case cons id ids hi =>
      have ⟨hn, nd⟩ := List.nodup_cons.mp nd
      rw [List.foldl_cons, hi nd, countCancelled.countGroup, dailyTotals_incrementCancelledRollup]
      by_cases hg : id = g
      case pos => simp [hg, hg ▸ hn]
      case neg => simp [hg, Ne.symm hg]
  rw [countCancelled, hf (List.nodup_dedup _)]
  split
  case isTrue => rfl
  case isFalse hn =>
    have hz : runs.countP (·.scheduleId = g) = 0 := by
      rw [List.countP_eq_zero]
      exact fun run hr he => hn <| List.mem_dedup.mpr <| List.mem_map.mpr ⟨run, hr, of_decide_eq_true he⟩
    rw [hz]
    rfl

-- The day on which a retry looks for the failure that it takes back.
def failureDay (s : Store) (runId : Uuid) (now : Time) : Int :=
  s.latestAttempt runId |>.bind (·.finishedAt) |>.getD now |>.day

-- The column in which it looks.
def failureCount (s : Store) (runId : Uuid) (d : DailyScheduleStats) : Nat :=
  if isBusinessFailure (s.latestAttempt runId |>.bind (·.diagnostic)) then d.businessFailed
  else d.infrastructureFailed

def showsFailure (s : Store) (run : Run) (now : Time) : Bool :=
  s.dailyScheduleStats.get? (run.scheduleId, s.failureDay run.id now) |>.any (0 < s.failureCount run.id ·)

theorem dailyTotals_decrementFailedRollup (hr : s.runs.get? run.id = some run)
    (hs : run.state = .failed) : (s.decrementFailedRollup run.id now).dailyTotals g +
      (if run.scheduleId = g ∧ s.showsFailure run now then (0, 1, 0) else 0) = s.dailyTotals g := by
  have hd : s.decrementFailedRollup run.id now = { s with
      dailyScheduleStats := s.dailyScheduleStats.update (fun d => d.scheduleId = run.scheduleId &&
        d.day = s.failureDay run.id now) fun d => { d with
          businessFailed       := d.businessFailed -
            if isBusinessFailure (s.latestAttempt run.id |>.bind (·.diagnostic)) then 1 else 0
          infrastructureFailed := d.infrastructureFailed -
            if isBusinessFailure (s.latestAttempt run.id |>.bind (·.diagnostic)) then 0 else 1 } } := by
    simp only [decrementFailedRollup, hr, hs, ne_eq, not_true_eq_false, if_false]
    rfl
  have hk : s.dailyScheduleStats.select (fun d => d.scheduleId = run.scheduleId &&
      d.day = s.failureDay run.id now) =
      (s.dailyScheduleStats.get? (run.scheduleId, s.failureDay run.id now)).toList := by
    rw [← Table.select_eq_toList]
    exact Table.select_congr fun d _ => by simp [Keyed.key]
  have ht := Table.sum_update (w := DailyScheduleStats.share g) (e := fun _ => 0)
    (d := fun d => if run.scheduleId = g ∧ 0 < s.failureCount run.id d then (0, 1, 0) else 0)
    (congrArg (·.dailyScheduleStats.rows) hd) fun d _ hp => by
      simp only [Bool.and_eq_true, decide_eq_true_eq] at hp
      simp only [DailyScheduleStats.share, hp.left, failureCount]
      by_cases hg : run.scheduleId = g
      case neg => simp [hg]
      case pos =>
        simp only [hg, true_and, if_true, DailyScheduleStats.tally]
        cases isBusinessFailure (s.latestAttempt run.id |>.bind (·.diagnostic)) <;>
          simp only [if_true, Bool.false_eq_true, if_false, Nat.sub_zero] <;> split <;> ext <;> simp <;> omega
  rw [hk] at ht
  cases hx : s.dailyScheduleStats.get? (run.scheduleId, s.failureDay run.id now) <;>
    simpa [showsFailure, hx, dailyTotals] using ht

end Rollups

-- A transaction that changes both sides by the same numbers.
def Balanced (s s' : Store) : Prop :=
  ∀ g, ∃ d, s'.dailyTotals g = s.dailyTotals g + d ∧ s'.runTotals g = s.runTotals g + d

namespace Balanced

theorem refl : Balanced s s :=
  fun _ => ⟨0, by simp, by simp⟩

theorem rollupsMatch (h : Balanced s s') (hm : s.RollupsMatch) : s'.RollupsMatch := by
  rw [rollupsMatch_iff] at hm ⊢
  intro g
  have ⟨d, h₁, h₂⟩ := h g
  rw [h₁, h₂, hm g]

theorem of_not_settles (ho : op.settles = false) : Balanced s (s.exec op) := by
  have hw : .dailyScheduleStats ∉ op.writes := by
    cases op <;> first | contradiction | simp [Op.writes]
  intro g
  refine ⟨0, ?_, ?_⟩
  · rw [add_zero, dailyTotals, dailyTotals, (s.exec_frame op).dailyScheduleStats hw]
  · rw [add_zero]
    exact ((s.exec_step op).shares ho).sum_eq

theorem applyResult {a result encrypted random} (hr : s.runs.get? run.id = some run)
    (hs : run.state.isActive) :
    Balanced s (s.applyResult a run result encrypted random now) := by
  have hn : run.stateAfter result.outcome ≠ .cancelled := by
    simp only [Run.stateAfter]
    repeat' split
    all_goals rintro ⟨⟩
  intro g
  refine ⟨if run.scheduleId = g then (run.stateAfter result.outcome).tally else 0, ?_, ?_⟩
  · simp only [Store.applyResult, dailyTotals_sync]
    exact dailyTotals_updateDailyScheduleStats hn
  · simp only [Store.applyResult, runTotals_sync]
    have hp r (hm : r ∈ s.runs) (hk : decide (r.id = run.id)) : r.state.isActive := by
      obtain rfl : r = run := Table.key_injOn hm (Table.mem_of_get? hr) (of_decide_eq_true hk)
      exact hs
    have hc := countP_select_run (g := g) (p := fun _ => true) hr rfl
    simp only [Bool.and_true] at hc
    refine runTotals_enter (x := run.stateAfter result.outcome) rfl hp (fun _ => ⟨rfl, rfl⟩) ?_
    rw [hc, ite_smul, one_smul, zero_smul]

theorem finishAttemptInner {id token result encrypted expired random} {r}
    (h : s.finishAttemptInner id token result encrypted expired random now = .ok r)
    (ha : ∀ a run, s.attempts.get? id = some a → Concludable expired a.state →
      s.runs.get? a.runId = some run → run.state ≠ .cancelled → run.state.isActive) :
    Balanced s r.2 := by
  simp only [Store.finishAttemptInner] at h
  repeat' split at h
  all_goals cases h
  any_goals exact refl
  case _ a hx _ run hr _ h₁ h₂ h₃ hs =>
    have hk : run.id = a.runId := Table.key_of_get? hr
    exact applyResult (hk ▸ hr) (ha a run hx (concludable h₁ h₂ h₃) hr hs)

theorem cancelRun {runId} : Balanced s ((s.cancelRun runId now).persisted s) := by
  simp only [Store.cancelRun]
  repeat' split
  case _ | _ => exact refl
  case _ run hr ht =>
    obtain rfl : run.id = runId := Table.key_of_get? hr
    have hs : run.state.isActive := by simpa [RunState.isActive] using ht
    intro g
    refine ⟨if run.scheduleId = g then (0, 0, 1) else 0, ?_, ?_⟩
    · simp only [Transaction.persisted_commit, dailyTotals_sync]
      exact dailyTotals_incrementCancelledRollup
    · simp only [Transaction.persisted_commit, runTotals_sync]
      refine runTotals_enter (p := fun r => r.id = run.id && r.state.isActive) rfl
        (fun r _ hp => (Bool.and_eq_true .. ▸ hp).right) (fun _ => ⟨rfl, rfl⟩) ?_
      rw [countP_select_run hr hs, ite_smul, one_smul, zero_smul]
      rfl

theorem cancelBatch {batchId} : Balanced s ((s.cancelBatch batchId now).persisted s) := by
  simp only [Store.cancelBatch]
  split
  case isFalse => exact refl
  case isTrue =>
    intro g
    refine ⟨_, dailyTotals_countCancelled, ?_⟩
    refine runTotals_enter (p := fun r => r.batchId = some batchId && r.state.isActive) rfl
      (fun r _ hp => (Bool.and_eq_true .. ▸ hp).right) (fun _ => ⟨rfl, rfl⟩) ?_
    simp [RunState.tally]

end Balanced

-- A transaction fails a queued run without a result, or retries a failed run of whose failure there is
-- no trace where the retry looks for it.
def miscounts (s : Store) (op : Op) : Bool :=
  match op with
  | .retryRun runId now =>
    (s.runs.get? runId).any fun run => run.state = .failed && !s.showsFailure run now
  | .recordHealthEvidence .. => s.runs.rows.any fun run => run.state = .queued && s.poisonedBy op run.id
  | _ => false

theorem rollupsMatch_poison_iff {poisoned : Uuid → Bool} (hm : s.RollupsMatch)
    (hd : s'.dailyScheduleStats = s.dailyScheduleStats) (h : s'.core = s.core.poison poisoned) :
    s'.RollupsMatch ↔ (s.runs.rows.any fun r => r.state = .queued && poisoned r.id) = false := by
  have hr g : s'.runTotals g = s.runTotals g + (s.runs.select fun r => r.state = .queued &&
      poisoned r.id).countP (·.scheduleId = g) • RunState.failed.tally := by
    have ht : s'.runs = (s.core.poison poisoned).runs := congrArg Core.runs h
    refine runTotals_enter (congrArg Table.rows ht) (fun r _ hp => ?_) (fun _ => ⟨rfl, rfl⟩) rfl
    simp only [Bool.and_eq_true, decide_eq_true_eq] at hp
    rw [hp.left]
    rfl
  have hd g : s'.dailyTotals g = s.runTotals g := by
    rw [← rollupsMatch_iff.mp hm g, dailyTotals, dailyTotals, hd]
  rw [rollupsMatch_iff, List.any_eq_false]
  constructor
  case mp =>
    intro he r hm hp
    have hz := (hd r.scheduleId).symm.trans (he r.scheduleId)
    have hc : 0 < (s.runs.select fun r => r.state = .queued && poisoned r.id).countP
        (·.scheduleId = r.scheduleId) :=
      List.countP_pos_iff.mpr ⟨r, Table.mem_select.mpr ⟨hm, hp⟩, by simp⟩
    rw [hr, left_eq_add, RunState.tally, Prod.smul_mk, Prod.smul_mk] at hz
    have hz := congrArg (·.2.1) hz
    simp only [smul_eq_mul, mul_one, Prod.snd_zero, Prod.fst_zero] at hz
    omega
  case mpr =>
    intro hn g
    have hs : s.runs.select (fun r => r.state = .queued && poisoned r.id) = [] :=
      List.filter_eq_nil_iff.mpr hn
    rw [hd, hr, hs, List.countP_nil, zero_smul, add_zero]

theorem rollupsMatch_retryRun_iff {runId} (hm : s.RollupsMatch) :
    ((s.retryRun runId now).persisted s).RollupsMatch ↔ s.miscounts (.retryRun runId now) = false := by
  by_cases hf : s.runs.rows.any fun r => r.id = runId && r.state = .failed
  case neg =>
    have he : (s.retryRun runId now).persisted s = s := by
      simp only [retryRun, decrementFailedRollup_runs, hf]
      rfl
    rw [he]
    refine iff_of_true hm ?_
    simp only [miscounts, Option.any_eq_false]
    intro run hr
    have hn := List.any_eq_false.mp (eq_false_of_ne_true hf) run (Table.mem_of_get? hr)
    have hk : run.id = runId := Table.key_of_get? hr
    simp_all
  case pos =>
    obtain ⟨run, hx, hk⟩ := List.any_eq_true.mp hf
    simp only [Bool.and_eq_true, decide_eq_true_eq] at hk
    obtain ⟨rfl, hs⟩ := hk
    have hr : s.runs.get? run.id = some run := Table.get?_of_mem hx
    have hd g : ((s.retryRun run.id now).persisted s).dailyTotals g +
        (if run.scheduleId = g ∧ s.showsFailure run now then (0, 1, 0) else 0) = s.dailyTotals g := by
      simp only [retryRun, decrementFailedRollup_runs, hf, if_true, Transaction.persisted_commit,
        dailyTotals_sync]
      exact dailyTotals_decrementFailedRollup hr hs
    have ht g : ((s.retryRun run.id now).persisted s).runTotals g +
        (if run.scheduleId = g then (0, 1, 0) else 0) = s.runTotals g := by
      simp only [retryRun, decrementFailedRollup_runs, hf, if_true, Transaction.persisted_commit,
        runTotals_sync]
      refine runTotals_leave (p := fun r => r.id = run.id && r.state = .failed) rfl
        (fun r _ hp => of_decide_eq_true (Bool.and_eq_true .. ▸ hp).right) (fun _ => ⟨rfl, rfl⟩) ?_
      rw [countP_select_run (p := (· = .failed)) hr (by simp [hs]), ite_smul, one_smul, zero_smul]
      rfl
    have hx : s.miscounts (.retryRun run.id now) = !s.showsFailure run now := by
      simp [miscounts, hr, hs]
    rw [hx, rollupsMatch_iff, Bool.not_eq_false']
    rw [rollupsMatch_iff] at hm
    constructor
    case mp =>
      intro he
      have hz := (ht run.scheduleId).trans (hm run.scheduleId).symm
      rw [← hd, he, add_right_inj] at hz
      by_contra hn
      simp [hn] at hz
    case mpr =>
      intro hv g
      have hz := (hd g).trans <| (hm g).trans (ht g).symm
      simpa [hv] using hz

theorem rollupsMatch_recordHealthEvidence_iff {e nodes id order} (hm : s.RollupsMatch) :
    (s.exec (.recordHealthEvidence e nodes id order now)).RollupsMatch ↔
      s.miscounts (.recordHealthEvidence e nodes id order now) = false := by
  have hd := (s.exec_frame (.recordHealthEvidence e nodes id order now)).dailyScheduleStats
    (by simp [Op.writes])
  exact rollupsMatch_poison_iff hm hd s.recordHealthEvidence_poison

end Store

namespace System

variable {σ : System} {act : Action} {as : List Action}

theorem Reachable.finishAttempt_balanced (h : σ.Reachable) {id token result encrypted random now}
    (ha : σ.Enabled (.store (.finishAttempt id token result encrypted random now))) :
    σ.store.Balanced (σ.store.exec (.finishAttempt id token result encrypted random now)) := by
  simp only [Store.exec, Store.finishAttempt]
  repeat' split
  case _ | _ => exact .refl
  case _ hf =>
    refine .finishAttemptInner hf fun a run hx hc hr hn => ?_
    have hk : a.id = id := Table.key_of_get? hx
    have hd : σ.delivery a.id = .sent := hk ▸ ha (id, .sent) rfl
    exact h.active_of_concludable (Table.mem_of_get? hx) hc (fun _ => hd) hr hn

theorem Reachable.finishExpiredAttempt_balanced (h : σ.Reachable)
    {id token result encrypted random now} :
    σ.store.Balanced (σ.store.exec (.finishExpiredAttempt id token result encrypted random now)) := by
  simp only [Store.exec, Store.finishExpiredAttempt]
  cases hf : σ.store.finishAttemptInner id token result encrypted true random now
  case error => exact .refl
  case ok =>
    refine .finishAttemptInner hf fun a run hx hc hr hn => ?_
    exact h.active_of_concludable (Table.mem_of_get? hx) hc (by rintro ⟨⟩) hr hn

def miscounts (σ : System) : Action → Bool
  | .store op   => σ.store.miscounts op
  | .deliver .. => false

theorem Reachable.rollupsMatch_exec_iff (h : σ.Reachable) (ha : σ.Enabled act)
    (hm : σ.store.RollupsMatch) :
    (σ.exec act).store.RollupsMatch ↔ σ.miscounts act = false := by
  cases act
  case deliver => exact iff_of_true hm rfl
  case store op =>
    cases hs : op.settles
    case false =>
      have hn : σ.store.miscounts op = false := by cases op <;> first | rfl | contradiction
      exact iff_of_true (Store.Balanced.of_not_settles hs |>.rollupsMatch hm) hn
    case true =>
      cases op
      case retryRun => exact Store.rollupsMatch_retryRun_iff hm
      case recordHealthEvidence => exact Store.rollupsMatch_recordHealthEvidence_iff hm
      case cancelRun => exact iff_of_true (Store.Balanced.cancelRun.rollupsMatch hm) rfl
      case cancelBatch => exact iff_of_true (Store.Balanced.cancelBatch.rollupsMatch hm) rfl
      case finishAttempt => exact iff_of_true ((h.finishAttempt_balanced ha).rollupsMatch hm) rfl
      case finishExpiredAttempt =>
        exact iff_of_true (h.finishExpiredAttempt_balanced.rollupsMatch hm) rfl
      all_goals contradiction

-- The rollups match the states of the runs exactly as long as no queued run is failed for its poisoned
-- input and every retry finds the failure that it takes back.

end System

namespace Sample

-- The clock of the agent is five days ahead for the first of two failures, after which the run is
-- retried by hand.
def backdated : List Action :=
  accepted ++ [
    .store (.finishAttempt 20 "token" { result .failed with finishedAt := 432000000 } none 0 1000),
    .store (.createAttempt 10 "agent" 30 21 "token" 10000),
    .deliver 21 .sent,
    .store (.acceptAttempt 21 "token" 30 10000),
    .store (.finishAttempt 21 "token" (result .failed) none 0 11000),
    .store (.retryRun 10 20000)
  ]

end Sample

namespace System

open Sample

end System

end Scheduler
