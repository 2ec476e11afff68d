import TaskScheduler.Agent.Lifetimes
import TaskScheduler.Settings.Registry

namespace Scheduler

-- An entry of the map of active tasks. `cancel` is what was sent last on its channel.
structure ActiveTask where
  attemptId : Uuid
  cancel    : Bool
  excel     : Bool
  started   : Bool
  deriving DecidableEq, Repr

instance : Keyed ActiveTask Uuid := ⟨ActiveTask.attemptId⟩

theorem ActiveTask.rows_update {active : Table ActiveTask} {id : Uuid} {f : ActiveTask → ActiveTask}
    {hf : ∀ t, Keyed.key (f t) = Keyed.key t} :
    (active.update (·.attemptId = id) f hf).rows = Keyed.modify active.rows id f := by
  simp [Table.update, Keyed.modify, Keyed.key]

-- The counts are taken as `u32`.
def capacityAvailable (active : Table ActiveTask) (settings : NodeSettings) (isExcel : Bool) :
    Bool :=
  let running := active.rows.countP (·.started) % 2 ^ 32
  let excelRunning := active.rows.countP (fun t => t.started && t.excel) % 2 ^ 32
  running < settings.maxParallel && (!isExcel || excelRunning < settings.excelMaxParallel)

-- How far a task came that has a result.
inductive Reached
  | rejection
  | capacity
  | executor
  deriving DecidableEq, Repr

-- Where an `execute_assignment` stands between two of its steps.
inductive TaskStage
  | spawned
  | registered
  | refused
  | rejected
  | waiting
  | polled
  | eligible
  | acquired
  | started
  | launched
  | finished  (reached : Reached) (json : String)
  | stored    (reached : Reached) (json : String)
  | abandoned (isMarked : Bool)
  | ended     (report : Option (Reached × String))
  deriving DecidableEq, Repr

namespace TaskStage

-- The task has an entry in the map.
def isLive : TaskStage → Bool
  | spawned | ended _ => false
  | _                 => true

def isMarked : TaskStage → Bool
  | acquired | started | launched           => true
  | finished reached _ | stored reached _   => reached ≠ .rejection
  | abandoned isMarked                      => isMarked
  | _                                       => false

-- The task has launched an executor.
def isLaunched : TaskStage → Bool
  | launched                              => true
  | finished reached _ | stored reached _ => reached = .executor
  | ended report                          => report.any (·.1 = .executor)
  | _                                     => false

def saved? : TaskStage → Option String
  | stored _ json => some json
  | ended report  => report.map (·.2)
  | _             => none

theorem isMarked_of_isLaunched {stage : TaskStage} (hl : stage.isLaunched)
    (hs : stage.saved? = none) : stage.isLive ∧ stage.isMarked := by
  cases stage <;> simp_all [isLaunched, isLive, isMarked, saved?]

end TaskStage

structure Task where
  attemptId : Uuid
  isExcel   : Bool
  stage     : TaskStage
  deriving DecidableEq, Repr

-- The steps of one task. What the policy says may change with the file system, and resolving the
-- bindings and running the executor have any outcome.
inductive TaskStep
  | register
  | check   (isAllowed : Bool)
  | poll
  | acquire
  | start   (now : Time)
  | fail
  | launch
  | finish  (json : String)
  | save    (now : Time)
  | remove
  deriving DecidableEq, Repr

structure AgentRuntime where
  process : AgentProcess
  active  : Table ActiveTask
  tasks   : List Task

-- `ledger` are the calls of the other parts of the agent. `spawn` is a claim that starts a task if
-- it succeeds, for an offer and for a resumption alike, and `signal` is the message to the task
-- that follows a cancellation.
inductive RuntimeAction
  | ledger (act : LedgerAction)
  | spawn  (assignment : ExecutionAssignment) (json : String) (now : Time)
  | signal (attemptId : Uuid)
  | task   (i : Nat) (step : TaskStep)

namespace AgentRuntime

def initial (runner : String) : AgentRuntime where
  process := .initial runner
  active  := ∅
  tasks   := []

variable (d : Decoder) (isExcel : ExecutionAssignment → Bool) (settings : NodeSettings)
  (σ : AgentRuntime)

def put (i : Nat) (task : Task) (stage : TaskStage) : AgentRuntime :=
  { σ with tasks := σ.tasks.set i { task with stage } }

def ledger (act : LedgerAction) : AgentRuntime :=
  { σ with process := σ.process.exec d act }

-- One step of `execute_assignment`.
def step (i : Nat) (task : Task) : TaskStage → TaskStep → AgentRuntime
  | .spawned, .register =>
    let active := σ.active.upsert ⟨task.attemptId, false, task.isExcel, false⟩ fun t =>
      { t with cancel := false, excel := task.isExcel, started := false }
    { σ.put i task .registered with active }
  | .registered, .check isAllowed => σ.put i task (if isAllowed then .waiting else .refused)
  | .refused, .start now =>
    let isStarted := (σ.process.ledger.start σ.process.runner task.attemptId now).1
    (σ.ledger d (.start task.attemptId now)).put i task
      (if isStarted then .rejected else .abandoned false)
  | .refused, .fail => σ.put i task (.abandoned false)
  | .rejected, .finish json => σ.put i task (.finished .rejection json)
  -- The loop.
  | .waiting, .poll =>
    let isCancelled := (σ.active.get? task.attemptId).any (·.cancel)
    σ.put i task (if isCancelled then .abandoned false else .polled)
  | .polled, .check isAllowed => σ.put i task (if isAllowed then .eligible else .refused)
  | .eligible, .acquire =>
    if capacityAvailable σ.active settings task.isExcel then
      let active := σ.active.update (·.attemptId = task.attemptId) fun t =>
        { t with started := true }
      { σ.put i task .acquired with active }
    else
      σ.put i task .waiting
  | .acquired, .start now =>
    let isStarted := (σ.process.ledger.start σ.process.runner task.attemptId now).1
    (σ.ledger d (.start task.attemptId now)).put i task
      (if isStarted then .started else .abandoned true)
  | .acquired, .fail => σ.put i task (.abandoned true)
  | .started, .finish json => σ.put i task (.finished .capacity json)
  | .started, .launch => σ.put i task .launched
  | .launched, .finish json => σ.put i task (.finished .executor json)
  -- The result is stored and the entry removed.
  | .finished reached json, .save now =>
    match σ.process.ledger.saveResult σ.process.runner task.attemptId json now with
    | .ok _    =>
      (σ.ledger d (.saveResult task.attemptId json now)).put i task (.stored reached json)
    | .error _ => σ
  | .stored reached json, .remove =>
    { σ.put i task (.ended (some (reached, json))) with
      active := σ.active.delete (·.attemptId = task.attemptId) }
  | .abandoned _, .remove =>
    { σ.put i task (.ended none) with active := σ.active.delete (·.attemptId = task.attemptId) }
  | _, _ => σ

def exec : RuntimeAction → AgentRuntime
  | .ledger (.boot runner) =>
    { process := σ.process.exec d (.boot runner), active := ∅, tasks := [] }
  | .ledger act => σ.ledger d act
  | .spawn assignment json now =>
    let isClaimed := (σ.process.ledger.claim σ.process.runner assignment json now).1
    let task := ⟨assignment.attemptId, isExcel assignment, .spawned⟩
    { σ.ledger d (.claim assignment json now) with
      tasks := if isClaimed then σ.tasks ++ [task] else σ.tasks }
  | .signal id =>
    let active := σ.active.update (·.attemptId = id) fun t => { t with cancel := true }
    { σ with active }
  | .task i step =>
    match σ.tasks[i]? with
    | none      => σ
    | some task => σ.step d settings i task task.stage step

def Enabled : RuntimeAction → Prop
  | .ledger act => σ.process.Enabled d act
  | .spawn assignment json now => σ.process.Enabled d (.claim assignment json now)
  | _ => True

instance : ∀ act, Decidable (σ.Enabled d act)
  | .ledger act => inferInstanceAs (Decidable (σ.process.Enabled d act))
  | .spawn assignment json now =>
    inferInstanceAs (Decidable (σ.process.Enabled d (.claim assignment json now)))
  | .signal _ | .task .. => .isTrue trivial

end AgentRuntime

-- An agent with settings that do not change, through any number of lifetimes.
def agentRuntime (d : Decoder) (isExcel : ExecutionAssignment → Bool) (settings : NodeSettings) :
    Machine AgentRuntime RuntimeAction where
  exec    := AgentRuntime.exec d isExcel settings
  Enabled := AgentRuntime.Enabled d

instance {d : Decoder} {isExcel : ExecutionAssignment → Bool} {settings : NodeSettings}
    {σ : AgentRuntime} {act : RuntimeAction} :
    Decidable ((agentRuntime d isExcel settings).Enabled σ act) :=
  inferInstanceAs (Decidable (σ.Enabled d act))

-- The result is in the ledger, from which it is sent until the coordinator has confirmed it.
def LedgerRow.Keeps (r : LedgerRow) (json : String) : Prop :=
  (r.state = .finished ∨ r.state = .acknowledged) ∧ r.resultJson = some json

-- The row was claimed by this lifetime.
def LedgerRow.BelongsTo (r : LedgerRow) (runner : String) : Prop :=
  r.runnerId = some runner ∧ r.state ≠ .accepted

theorem LedgerRow.BelongsTo.not_claimable {r : LedgerRow} {runner : String}
    (h : r.BelongsTo runner) : r.claimable runner = false := by
  simp [claimable, h.left, h.right]

namespace Ledger

variable {l l' : Ledger} {r : LedgerRow} {runner json : String} {id : Uuid} {now : Time}

theorem keeps_of_saveResult (h : l.saveResult runner id json now = .ok l')
    (hr : l'.assignments.get? id = some r) : r.Keeps json := by
  simp only [saveResult] at h
  split at h
  case isTrue hu =>
    cases h
    obtain ⟨r', hm, hp⟩ := updateOne_iff.mp hu
    have hg : l.assignments.get? id = some r' := by
      simp only [Bool.and_eq_true, decide_eq_true_eq] at hp
      exact Table.get?_eq_some.mpr ⟨hm, hp.left.left⟩
    rw [get?_updateOne, hg, Option.map_some, if_pos hp, Option.some.injEq] at hr
    subst hr
    exact ⟨.inl rfl, rfl⟩
  case isFalse =>
    split at h
    case isFalse => contradiction
    case isTrue hu =>
      cases h
      obtain ⟨r', hm, hp⟩ := List.any_eq_true.mp hu
      simp only [Bool.and_eq_true, decide_eq_true_eq] at hp
      have hg : l.assignments.get? id = some r' := Table.get?_eq_some.mpr ⟨hm, hp.left.left.left⟩
      cases hg.symm.trans hr
      exact ⟨.inl hp.left.right, hp.right⟩

theorem belongsTo_of_claim {assignment : ExecutionAssignment}
    (h : (l.claim runner assignment json now).1 = true) :
    (∃ r ∈ l.assignments, r.attemptId = assignment.attemptId ∧ r.claimable runner) ∧
    ∃ r, (l.claim runner assignment json now).2.assignments.get? assignment.attemptId = some r ∧
      r.BelongsTo runner := by
  have ⟨r, hm, hp⟩ := updateOne_iff.mp h
  have hp' := hp
  simp only [Bool.and_eq_true, decide_eq_true_eq] at hp'
  have hi := hp'.left.left.left
  have hg : l.assignments.get? assignment.attemptId = some r := Table.get?_eq_some.mpr ⟨hm, hi⟩
  refine ⟨⟨r, hm, hi, hp'.right⟩,
    { r with state := .claimed, runnerId := some runner, updatedAt := now }, ?_, rfl, nofun⟩
  rw [claim, get?_updateOne, hg, Option.map_some, if_pos hp]

end Ledger

namespace AgentProcess

variable {d : Decoder} {σ : AgentProcess} {act : LedgerAction} {r r' : LedgerRow}

theorem Moves.belongsTo (hm : Moves d σ act r r') (h : r.BelongsTo σ.runner) :
    r'.BelongsTo σ.runner := by
  cases hm
  case same => exact h
  case claim hc _ => simp [h.not_claimable] at hc
  case cancel =>
    refine ⟨h.left, ?_⟩
    simp only
    split <;> simp
  case start | save | acknowledge | quarantine => exact ⟨h.left, by simp⟩

-- Only an acknowledgement changes a row that has its result.
theorem Moves.keeps {json : String} (hm : Moves d σ act r r') (hs : Sound d σ)
    (hr : σ.row? r.attemptId = some r) (ho : r.BelongsTo σ.runner) (hk : r.Keeps json) :
    r'.Keeps json := by
  have ⟨hk, hj⟩ := hk
  cases hm
  case same => exact ⟨hk, hj⟩
  case claim hc _ => simp [ho.not_claimable] at hc
  case start hc _ => simp [hc] at hk
  case cancel hc => rcases hk with hk | hk <;> simp [hk, LedgerState.isOpen] at hc
  case save hc => rcases hk with hk | hk <;> simp [hk, LedgerState.isEligible] at hc
  case acknowledge => exact ⟨.inr rfl, hj⟩
  case quarantine hc => exact absurd ho.left (hs.condemned hc hr).left

theorem Sound.exec (h : Sound d σ) (ha : σ.Enabled d act) : Sound d (σ.exec d act) := by
  have hr : (σ.exec d act).runner = σ.runner ∧ _ ∨ _ := exec_runner
  rcases hr with ⟨hr, hp⟩ | ⟨runner, rfl⟩
  case inl => exact h.step ha hr hp
  case inr => exact h.boot ha

end AgentProcess

namespace AgentRuntime

open AgentProcess

variable {d : Decoder} {isExcel : ExecutionAssignment → Bool} {settings : NodeSettings}
  {σ : AgentRuntime} {act : LedgerAction} {i : Nat} {task : Task} {stage : TaskStage}

def started (σ : AgentRuntime) : Nat :=
  σ.active.rows.countP (·.started)

def startedExcel (σ : AgentRuntime) : Nat :=
  σ.active.rows.countP fun t => t.started && t.excel

-- The entry of a task.
def Shows (task : Task) (t : ActiveTask) : Prop :=
  t.attemptId = task.attemptId ∧ t.excel = task.isExcel ∧ t.started = task.stage.isMarked

structure Bookkeeping (d : Decoder) (settings : NodeSettings) (σ : AgentRuntime) : Prop where
  sound    : Sound d σ.process
  ids      : (σ.tasks.map (·.attemptId)).Nodup
  rows     : ∀ task ∈ σ.tasks, ∃ r, σ.process.row? task.attemptId = some r ∧
    r.BelongsTo σ.process.runner ∧ ∀ json ∈ task.stage.saved?, r.Keeps json
  entries  : ∀ task ∈ σ.tasks, task.stage.isLive → ∃ t ∈ σ.active, Shows task t
  gone     : ∀ task ∈ σ.tasks, task.stage.isLive = false →
    ∀ t ∈ σ.active, t.attemptId ≠ task.attemptId
  owned    : ∀ t ∈ σ.active, ∃ task ∈ σ.tasks, task.attemptId = t.attemptId
  parallel : σ.started ≤ settings.maxParallel
  excel    : σ.startedExcel ≤ settings.excelMaxParallel

namespace Bookkeeping

variable (h : Bookkeeping d settings σ)
include h

-- A task that has moved on stands among the others, which are for other attempts.
theorem mem_put {u : Task} (ht : σ.tasks[i]? = some task) : u ∈ (σ.put i task stage).tasks ↔
    u = { task with stage } ∨ u ∈ σ.tasks ∧ u.attemptId ≠ task.attemptId := by
  have hi : i < σ.tasks.length := (List.getElem?_eq_some_iff.mp ht).choose
  simp only [put, List.mem_iff_getElem?, List.getElem?_set]
  constructor
  case mp =>
    rintro ⟨j, hj⟩
    split at hj
    case isTrue => exact .inl (by simpa [hi] using hj.symm)
    case isFalse hn =>
      refine .inr ⟨⟨j, hj⟩, fun he => hn ?_⟩
      exact (List.getElem?_inj (by simpa using hi) h.ids).mp (by simp [ht, hj, he])
  case mpr =>
    rintro (rfl | ⟨⟨j, hj⟩, hn⟩)
    case inl => exact ⟨i, by simp [hi]⟩
    case inr =>
      have hn : i ≠ j := fun he => hn (by simp_all)
      exact ⟨j, by simpa [hn] using hj⟩

theorem ledger (ha : σ.process.Enabled d act)
    (hr : (σ.process.exec d act).runner = σ.process.runner) :
    Bookkeeping d settings (σ.ledger d act) where
  sound    := h.sound.exec ha
  ids      := h.ids
  rows u hu := by
    have ⟨r, hx, ho, hk⟩ := h.rows u hu
    have ⟨r', hx', hm⟩ := exec_row ha hx
    have hi : r.attemptId = u.attemptId := Table.key_of_get? hx
    refine ⟨r', hx', ?_, fun json hj => ?_⟩
    · rw [show (σ.ledger d act).process.runner = σ.process.runner from hr]
      exact hm.belongsTo ho
    · exact hm.keeps h.sound (hi ▸ hx) ho (hk json hj)
  entries  := h.entries
  gone     := h.gone
  owned    := h.owned
  parallel := h.parallel
  excel    := h.excel

-- A task moves on together with its entry.
theorem change {active : Table ActiveTask} (ht : σ.tasks[i]? = some task)
    (hs : ∀ json ∈ stage.saved?, ∀ r, σ.process.row? task.attemptId = some r → r.Keeps json)
    (hf : ∀ t, t.attemptId ≠ task.attemptId → (t ∈ active ↔ t ∈ σ.active))
    (hl : stage.isLive → ∃ t ∈ active, Shows { task with stage } t)
    (hg : stage.isLive = false → ∀ t ∈ active, t.attemptId ≠ task.attemptId)
    (hp : active.rows.countP (·.started) ≤ settings.maxParallel)
    (hx : (active.rows.countP fun t => t.started && t.excel) ≤ settings.excelMaxParallel) :
    Bookkeeping d settings { σ.put i task stage with active } := by
  have hm : task ∈ σ.tasks := List.mem_of_getElem? ht
  constructor
  case sound => exact h.sound
  case ids =>
    have hu : (σ.put i task stage).tasks.map (·.attemptId) = σ.tasks.map (·.attemptId) := by
      apply List.ext_getElem?
      intro j
      simp only [put, List.getElem?_map, List.getElem?_set]
      split
      case isTrue he => grind
      case isFalse => rfl
    exact hu ▸ h.ids
  case rows =>
    intro u hu
    rcases (h.mem_put ht).mp hu with rfl | ⟨hu, _⟩
    case inl =>
      have ⟨r, hr, ho, _⟩ := h.rows task hm
      exact ⟨r, hr, ho, fun json hj => hs json hj r hr⟩
    case inr => exact h.rows u hu
  case entries =>
    intro u hu hv
    rcases (h.mem_put ht).mp hu with rfl | ⟨hu, hn⟩
    case inl => exact hl hv
    case inr =>
      have ⟨t, hm, hw⟩ := h.entries u hu hv
      exact ⟨t, (hf t (hw.left ▸ hn)).mpr hm, hw⟩
  case gone =>
    intro u hu hv t hm he
    rcases (h.mem_put ht).mp hu with rfl | ⟨hu, hn⟩
    case inl => exact hg hv t hm he
    case inr => exact h.gone u hu hv t ((hf t (he ▸ hn)).mp hm) he
  case owned =>
    intro t hm'
    by_cases he : t.attemptId = task.attemptId
    case pos => exact ⟨_, (h.mem_put ht).mpr (.inl rfl), he.symm⟩
    case neg =>
      have ⟨u, hu, hi⟩ := h.owned t ((hf t he).mp hm')
      exact ⟨u, (h.mem_put ht).mpr (.inr ⟨hu, hi ▸ he⟩), hi⟩
  case parallel => exact hp
  case excel => exact hx

theorem move (ht : σ.tasks[i]? = some task) (hl : task.stage.isLive) (hl' : stage.isLive)
    (hm : stage.isMarked = task.stage.isMarked) (hs : stage.saved? = none) :
    Bookkeeping d settings (σ.put i task stage) := by
  have ⟨t, ht', hi, hx, hk⟩ := h.entries task (List.mem_of_getElem? ht) hl
  refine h.change ht (by simp [hs]) (fun _ _ => .rfl) (fun _ => ?_) (by simp [hl']) h.parallel
    h.excel
  exact ⟨t, ht', hi, hx, hk.trans hm.symm⟩

theorem register (ht : σ.tasks[i]? = some task) (hs : task.stage = .spawned) :
    Bookkeeping d settings (σ.step d settings i task .spawned .register) := by
  have hg : σ.active.get? task.attemptId = none :=
    Table.get?_eq_none.mpr <| h.gone task (List.mem_of_getElem? ht) (by simp [hs, TaskStage.isLive])
  have ⟨active, hi⟩ := Table.insert_isSome (t := σ.active)
    (a := ⟨task.attemptId, false, task.isExcel, false⟩) hg
  have hu : σ.step d settings i task .spawned .register =
      { σ.put i task .registered with active } := by
    simp only [step, Table.upsert, hi]
    rfl
  rw [hu]
  refine h.change ht (by simp [TaskStage.saved?]) (fun t hn => ?_) (fun _ => ?_)
    (by simp [TaskStage.isLive]) ?_ ?_
  · rw [Table.mem_of_insert hi]
    refine or_iff_left fun he => hn ?_
    rw [he]
  · exact ⟨_, (Table.mem_of_insert hi).mpr (.inr rfl), rfl, rfl, rfl⟩
  · simpa [Table.rows_of_insert hi, started] using h.parallel
  · simpa [Table.rows_of_insert hi, startedExcel] using h.excel

-- One more is counted, which the check has made room for.
theorem acquire (hm : settings.maxParallel < 2 ^ 32) (hx : settings.excelMaxParallel < 2 ^ 32)
    (ht : σ.tasks[i]? = some task) (hs : task.stage = .eligible) :
    Bookkeeping d settings (σ.step d settings i task .eligible .acquire) := by
  simp only [step]
  split
  case isFalse => exact h.move ht (by rw [hs]; rfl) rfl (by rw [hs]; rfl) rfl
  case isTrue hc =>
    obtain ⟨t, ht', hi, he, hk⟩ := h.entries task (List.mem_of_getElem? ht) (by rw [hs]; rfl)
    have hk : t.started = false := by rw [hk, hs]; rfl
    simp only [capacityAvailable, Bool.and_eq_true, Bool.or_eq_true, decide_eq_true_eq] at hc
    have hp (p : ActiveTask → Bool) : (σ.active.update (·.attemptId = task.attemptId) fun t =>
        { t with started := true }).rows.countP p + (p t).toNat =
          σ.active.rows.countP p + (p { t with started := true }).toNat := by
      rw [ActiveTask.rows_update]
      exact Keyed.countP_modify σ.active.nodup ht' hi p
    have hc₁ : σ.started < settings.maxParallel := by
      rw [← Nat.mod_eq_of_lt (h.parallel.trans_lt hm)]
      exact hc.left
    refine h.change ht (by simp [TaskStage.saved?]) (fun u hn => ?_) (fun _ => ?_)
      (by simp [TaskStage.isLive]) ?_ ?_
    · rw [Table.mem_update]
      constructor
      case mp =>
        rintro ⟨v, hv, rfl⟩
        split at hn
        case isTrue hv' => simp_all
        case isFalse hv' => simpa [hv'] using hv
      case mpr =>
        intro hu
        exact ⟨u, hu, by simp [hn]⟩
    · refine ⟨_, Table.mem_update_of_mem ht', ?_⟩
      simp [hi, Shows, he, TaskStage.isMarked]
    · have hp := hp (·.started)
      simp only [hk, Bool.toNat_false, Bool.toNat_true, Nat.add_zero] at hp
      exact hp.trans_le hc₁
    · have hp := hp fun t => t.started && t.excel
      simp only [hk, he, Bool.false_and, Bool.true_and, Bool.toNat_false, Nat.add_zero] at hp
      rw [hp]
      rcases hc.right with hn | hn
      case inl =>
        rw [(Bool.not_eq_true' _).mp hn]
        exact h.excel
      case inr =>
        have hc₂ : σ.startedExcel < settings.excelMaxParallel := by
          rw [← Nat.mod_eq_of_lt (h.excel.trans_lt hx)]
          exact hn
        exact (Nat.add_le_add_left (Bool.toNat_le _) _).trans hc₂

theorem remove {report : Option (Reached × String)} (ht : σ.tasks[i]? = some task)
    (hs : report.map (·.2) = task.stage.saved?) :
    Bookkeeping d settings { σ.put i task (.ended report) with
      active := σ.active.delete (·.attemptId = task.attemptId) } := by
  refine h.change ht (fun json hj r hr => ?_) (fun t hn => ?_) (by simp [TaskStage.isLive])
    (fun _ t hm => ?_) ?_ ?_
  · have ⟨r', hr', _, hk⟩ := h.rows task (List.mem_of_getElem? ht)
    cases hr.symm.trans hr'
    exact hk json (hs ▸ hj)
  · simp [Table.mem_delete, hn]
  · simpa using (Table.mem_delete.mp hm).right
  · exact List.filter_sublist.countP_le.trans h.parallel
  · exact List.filter_sublist.countP_le.trans h.excel

theorem start {now : Time} {stage' : TaskStage} (ht : σ.tasks[i]? = some task)
    (hl : task.stage.isLive) (hs : stage'.isLive ∧ stage'.isMarked = task.stage.isMarked ∧
      stage'.saved? = none) :
    Bookkeeping d settings ((σ.ledger d (.start task.attemptId now)).put i task stage') := by
  have h' : Bookkeeping d settings (σ.ledger d (.start task.attemptId now)) := h.ledger trivial rfl
  exact h'.move ht hl hs.left hs.right.left hs.right.right

theorem save {reached : Reached} {json : String} {now : Time} (ht : σ.tasks[i]? = some task)
    (hs : task.stage = .finished reached json) :
    Bookkeeping d settings (σ.step d settings i task (.finished reached json) (.save now)) := by
  simp only [step]
  split
  case h_2 => exact h
  case h_1 l hl =>
    have hx : σ.process.exec d (.saveResult task.attemptId json now) = { σ.process with
        ledger := l
        log    := .saved σ.process.runner task.attemptId :: σ.process.log
      } := by
      simp only [AgentProcess.exec, hl]
    have h' : Bookkeeping d settings (σ.ledger d (.saveResult task.attemptId json now)) :=
      h.ledger trivial (by rw [hx])
    obtain ⟨t, ht', hw⟩ := h.entries task (List.mem_of_getElem? ht) (by rw [hs]; rfl)
    refine h'.change ht (fun json' hj r hr => ?_) (fun _ _ => .rfl) (fun _ => ⟨t, ht', ?_⟩)
      (by simp [TaskStage.isLive]) h.parallel h.excel
    · cases hj
      refine Ledger.keeps_of_saveResult hl ?_
      simpa [AgentRuntime.ledger, hx, row?] using hr
    · rw [Shows, hs] at hw
      exact hw

theorem step_task {stage' : TaskStage} {step : TaskStep} (hm : settings.maxParallel < 2 ^ 32)
    (hx : settings.excelMaxParallel < 2 ^ 32) (ht : σ.tasks[i]? = some task)
    (hs : task.stage = stage') : Bookkeeping d settings (σ.step d settings i task stage' step) := by
  have hv {stage''} (hl : stage'.isLive) (hl' : stage''.isLive)
      (hk : stage''.isMarked = stage'.isMarked) (hn : stage''.saved? = none) :
      Bookkeeping d settings (σ.put i task stage'') :=
    h.move ht (hs ▸ hl) hl' (hs ▸ hk) hn
  cases stage' <;> cases step
  all_goals try exact h
  case spawned.register => exact h.register ht hs
  case eligible.acquire => exact h.acquire hm hx ht hs
  case finished.save => exact h.save ht hs
  case stored.remove => exact h.remove ht (by rw [hs]; rfl)
  case abandoned.remove => exact h.remove ht (by rw [hs]; rfl)
  case refused.start =>
    refine h.start ht (by rw [hs]; rfl) ?_
    rw [hs]
    split <;> exact ⟨rfl, rfl, rfl⟩
  case acquired.start =>
    refine h.start ht (by rw [hs]; rfl) ?_
    rw [hs]
    split <;> exact ⟨rfl, rfl, rfl⟩
  case registered.check | polled.check | waiting.poll =>
    simp only [AgentRuntime.step]
    split <;> exact hv rfl rfl rfl rfl
  all_goals exact hv rfl rfl rfl rfl

theorem spawn {assignment : ExecutionAssignment} {json : String} {now : Time}
    (ha : σ.process.Enabled d (.claim assignment json now)) :
    Bookkeeping d settings (σ.exec d isExcel settings (.spawn assignment json now)) := by
  have h' := h.ledger ha rfl
  simp only [exec]
  split
  case isFalse => exact h'
  case isTrue hc =>
    have ⟨⟨r₀, hm, hi, hr₀⟩, r, hr, ho⟩ := Ledger.belongsTo_of_claim hc
    -- A task of the same attempt would have the row.
    have hn : ∀ task ∈ σ.tasks, task.attemptId ≠ assignment.attemptId := by
      intro task ht he
      have ⟨r₁, hr₁, ho₁, _⟩ := h.rows task ht
      have hr₀' : σ.process.row? assignment.attemptId = some r₀ := Table.get?_eq_some.mpr ⟨hm, hi⟩
      rw [he, hr₀'] at hr₁
      cases hr₁
      simp [ho₁.not_claimable] at hr₀
    constructor
    case sound => exact h'.sound
    case ids =>
      rw [List.map_append, List.map_singleton, List.nodup_append]
      refine ⟨h.ids, List.nodup_singleton _, fun id hid id' hid' he => ?_⟩
      have ⟨task, ht, hk⟩ := List.mem_map.mp hid
      rw [List.mem_singleton] at hid'
      exact hn task ht (hk.trans (he.trans hid'))
    case rows =>
      intro task ht
      rcases List.mem_append.mp ht with ht | ht
      case inl => exact h'.rows task ht
      case inr =>
        rw [List.mem_singleton] at ht
        subst ht
        exact ⟨r, hr, ho, by simp [TaskStage.saved?]⟩
    case entries =>
      intro task ht hl
      rcases List.mem_append.mp ht with ht | ht
      case inl => exact h.entries task ht hl
      case inr =>
        rw [List.mem_singleton] at ht
        subst ht
        contradiction
    case gone =>
      intro task ht hl t hm he
      rcases List.mem_append.mp ht with ht | ht
      case inl => exact h.gone task ht hl t hm he
      case inr =>
        rw [List.mem_singleton] at ht
        subst ht
        have ⟨task, ht, hk⟩ := h.owned t hm
        exact hn task ht (hk.trans he)
    case owned =>
      intro t hm
      have ⟨task, ht, hk⟩ := h.owned t hm
      exact ⟨task, List.mem_append_left _ ht, hk⟩
    case parallel => exact h.parallel
    case excel => exact h.excel

theorem signal {id : Uuid} :
    Bookkeeping d settings (σ.exec d isExcel settings (.signal id)) := by
  have hc (p : ActiveTask → Bool) (hp : ∀ t, p { t with cancel := true } = p t) :
      (σ.active.update (·.attemptId = id) fun t => { t with cancel := true }).rows.countP p =
        σ.active.rows.countP p := by
    rw [ActiveTask.rows_update, Keyed.countP_modify_of_eq hp]
  constructor
  case sound => exact h.sound
  case ids => exact h.ids
  case rows => exact h.rows
  case entries =>
    intro task ht hl
    obtain ⟨t, hm, hw⟩ := h.entries task ht hl
    simp only [exec, Table.mem_update]
    refine ⟨_, ⟨t, hm, rfl⟩, ?_⟩
    split <;> exact hw
  case gone =>
    intro task ht hl t hm
    simp only [exec, Table.mem_update] at hm
    obtain ⟨u, hu, he⟩ := hm
    have hn := h.gone task ht hl u hu
    rw [← he]
    split <;> exact hn
  case owned =>
    intro t hm
    simp only [exec, Table.mem_update] at hm
    obtain ⟨u, hu, he⟩ := hm
    obtain ⟨task, ht, hk⟩ := h.owned u hu
    refine ⟨task, ht, ?_⟩
    rw [← he]
    split <;> exact hk
  case parallel => exact (hc _ fun _ => rfl).trans_le h.parallel
  case excel => exact (hc _ fun _ => rfl).trans_le h.excel

theorem exec {act : RuntimeAction} (hm : settings.maxParallel < 2 ^ 32)
    (hx : settings.excelMaxParallel < 2 ^ 32) (ha : σ.Enabled d act) :
    Bookkeeping d settings (σ.exec d isExcel settings act) := by
  cases act
  case ledger act =>
    have hr : (σ.process.exec d act).runner = σ.process.runner ∧ _ ∨ _ := exec_runner
    cases act
    case boot runner =>
      have ha : σ.process.Enabled d (.boot runner) := ha
      exact ⟨h.sound.exec ha, List.nodup_nil, nofun, nofun, nofun, nofun, Nat.zero_le _,
        Nat.zero_le _⟩
    all_goals
      refine h.ledger ha ?_
      rcases hr with ⟨hr, _⟩ | ⟨_, hr⟩
      · exact hr
      · contradiction
  case spawn => exact h.spawn ha
  case signal => exact h.signal
  case task i step =>
    simp only [AgentRuntime.exec]
    split
    case h_1 => exact h
    case h_2 ht => exact h.step_task hm hx ht rfl

end Bookkeeping

-- What admission control promises.
structure Controlled (settings : NodeSettings) (σ : AgentRuntime) : Prop where
  parallel : σ.started ≤ settings.maxParallel
  excel    : σ.startedExcel ≤ settings.excelMaxParallel
  -- What has launched an executor is counted until its result is in the ledger.
  counted  : ∀ task ∈ σ.tasks, task.stage.isLaunched →
    (∃ t ∈ σ.active, t.attemptId = task.attemptId ∧ t.started ∧ t.excel = task.isExcel) ∨
    ∃ r ∈ σ.process.ledger.assignments, r.attemptId = task.attemptId ∧
      ∃ json ∈ task.stage.saved?, r.Keeps json
  -- A task is over when its entry is removed, and each entry belongs to one task that is not over.
  removed  : ∀ task ∈ σ.tasks, ∀ report, task.stage = .ended report →
    ∀ t ∈ σ.active, t.attemptId ≠ task.attemptId
  owned    : ∀ t ∈ σ.active, ∃ task ∈ σ.tasks, task.attemptId = t.attemptId ∧ task.stage.isLive

theorem Bookkeeping.controlled (h : Bookkeeping d settings σ) : Controlled settings σ where
  parallel := h.parallel
  excel    := h.excel
  counted task ht hl := by
    cases hs : task.stage.saved?
    case none =>
      have ⟨hv, hk⟩ := TaskStage.isMarked_of_isLaunched hl hs
      have ⟨t, hm, hi, hx, hw⟩ := h.entries task ht hv
      exact .inl ⟨t, hm, hi, hw.trans hk, hx⟩
    case some json =>
      have ⟨r, hr, _, hk⟩ := h.rows task ht
      have ⟨hm, hi⟩ := Table.get?_eq_some.mp hr
      exact .inr ⟨r, hm, hi, json, rfl, hk json hs⟩
  removed task ht report hs := h.gone task ht (by rw [hs]; rfl)
  owned t hm := by
    have ⟨task, ht, hi⟩ := h.owned t hm
    refine ⟨task, ht, hi, ?_⟩
    by_contra hl
    exact h.gone task ht (Bool.eq_false_of_not_eq_true hl) t hm hi.symm

end AgentRuntime

theorem admission_controlled {d : Decoder} {isExcel : ExecutionAssignment → Bool}
    {settings : NodeSettings} {runner : String} {σ : AgentRuntime}
    (hm : settings.maxParallel < 2 ^ 32) (hx : settings.excelMaxParallel < 2 ^ 32)
    (h : (agentRuntime d isExcel settings).Reachable (.initial runner) σ) :
    σ.Controlled settings := by
  have hb : AgentRuntime.Bookkeeping d settings σ := by
    refine h.invariant (fun _ _ hi ha => hi.exec hm hx ha) ?_
    exact ⟨.initial, List.nodup_nil, nofun, nofun, nofun, nofun, Nat.zero_le _, Nat.zero_le _⟩
  exact hb.controlled

namespace Sample

-- Two assignments for one slot. The second one waits for the first, whose executor runs.
def contended : List RuntimeAction := [
    .ledger (.record (assignment 1) "old" 0), .ledger (.record (assignment 2) "new" 0),
    .spawn (assignment 1) "old" 1, .spawn (assignment 2) "new" 1, .task 0 .register,
    .task 1 .register, .task 0 (.check true), .task 1 (.check true), .task 0 .poll, .task 1 .poll,
    .task 0 (.check true), .task 1 (.check true), .task 0 .acquire, .task 1 .acquire,
    .task 0 (.start 2), .task 0 .launch
  ]

def oneSlot : NodeSettings :=
  { maxParallel := 1 }

end Sample

open Sample

theorem admission_controlled_contended :
    let σ := (agentRuntime decoder (fun _ => true) oneSlot).run (.initial "v1") contended
    σ.tasks.map (·.stage) = [.launched, .waiting] ∧ σ.Controlled oneSlot := by
  intro σ
  have h : (agentRuntime decoder (fun _ => true) oneSlot).Reachable (.initial "v1") σ :=
    Machine.Reachable.refl.run (by decide)
  exact ⟨by decide, admission_controlled (by decide) (by decide) h⟩

end Scheduler
