import TaskScheduler.Library.Machine
import TaskScheduler.Core.Domain
import TaskScheduler.Executor.Output

namespace Scheduler

namespace Executor

structure ExitStatus where
  code   : Option Int
  signal : Option String
  deriving DecidableEq, Repr

-- Why `run_process` stops waiting for its child.
inductive End
  | exit (status : ExitStatus)
  | timeout
  | lease
  | cancel
  deriving DecidableEq, Repr

-- What the thread that reads the control pipe shares with the task.
structure ControlState where
  lastKeepalive : Time
  cancelled     : Bool
  deriving DecidableEq, Repr

-- `value.get(name).and_then(|value| value.as_bool()) == Some(true)`
def isSet (name : String) (value : Json) : Bool :=
  match value.get? name with
  | some (.bool flag) => flag
  | _                 => false

-- A line of the control pipe that is JSON; others are skipped.
def ControlState.read (state : ControlState) (value : Json) (now : Time) : ControlState where
  lastKeepalive := if isSet "keepalive" value then now else state.lastKeepalive
  cancelled     := isSet "cancel" value || state.cancelled

-- Where `run_process` stands. `deadline` is the one that the lease watchdog sleeps until, and
-- `unseen` is since when there is a change of the control state that it has not seen. `collecting`
-- begins with the death of the process, `stopped` is when it was asked to stop or exited. `result`
-- is what the outcome and the diagnostic are made from, or the error of a task that did not run.
inductive Phase
  | preparing
  | running     (deadline : Time) (unseen : Option Time)
  | terminating (cause : End) (stopped : Time)
  | collecting  (cause : End) (stopped since : Time)
  | done        (result : Except String (End × ProcessOutput)) (finishedAt : Time)

-- The task process is there.
def Phase.isAlive : Phase → Bool
  | running .. | terminating .. => true
  | _                           => false

-- What `run_process` does next, or the time that passes. `observe` is the watchdog that wakes for a
-- change, `reap` is an exit within the time that a process is given to stop, and `abandon` the end
-- of the time that its output is given.
inductive Step
  | line    (value : Json)
  | spawn
  | fail    (error : String)
  | observe
  | select  (cause : End)
  | reap
  | kill
  | collect (out : ProcessOutput)
  | abandon
  | pass    (d : Time)

-- The steps that an executor takes by itself. The others are up to its task, its agent and the
-- operating system.
def Step.isOwn : Step → Bool
  | spawn | observe | kill | abandon                  => true
  | select cause                                      => !(cause matches .exit _)
  | line _ | fail _ | reap | collect _ | pass _       => false

-- How long `terminate` waits for a graceful stop.
def gracePeriod : Time :=
  .seconds 5

-- How long `collect_output` waits for the output.
def outputPeriod : Time :=
  .seconds 2

end Executor

-- What a `task-executor` knows of its task. `lines` are the lines of its control pipe that have
-- been read so far, with the times, the latest first. Nothing looks at those that come once the
-- task has ended or has to stop.
structure TaskContext where
  timeoutSeconds : Nat
  leaseSeconds   : Nat
  startedAt      : Time
  spawnedAt      : Time
  control        : Executor.ControlState
  lines          : List (Time × Json)

structure TaskExecutor extends TaskContext where
  phase : Executor.Phase
  now   : Time

namespace TaskContext

open Executor

variable (c : TaskContext) (now slack : Time)

def timeoutDeadline : Time :=
  c.spawnedAt + .seconds c.timeoutSeconds

-- The deadline that the watchdog computes from the control state.
def leaseDeadline : Time :=
  c.control.lastKeepalive + .seconds c.leaseSeconds

-- The times at which lines of the kind were read.
def times (name : String) : List Time :=
  (c.lines.filter fun line => isSet name line.2).map (·.1)

def hear (value : Json) : TaskContext :=
  { c with control := c.control.read value now, lines := (now, value) :: c.lines }

-- The moments from which on there is something to do.
def timers : Phase → List Time
  | .preparing               => [c.startedAt]
  | .running deadline unseen =>
    [c.timeoutDeadline, max c.spawnedAt deadline] ++ unseen.toList ++
      (c.times "cancel").map (max c.spawnedAt)
  | .terminating _ stopped   => [stopped + gracePeriod]
  | .collecting _ _ since    => [since + outputPeriod]
  | .done ..                 => []

-- Nothing that is due stays undone for longer than `slack`.
def Timely (phase : Phase) : Prop :=
  ∀ t ∈ c.timers phase, now ≤ t + slack

instance decidableTimely (phase : Phase) : Decidable (c.Timely now slack phase) :=
  inferInstanceAs (Decidable (∀ t ∈ c.timers phase, now ≤ t + slack))

-- No keepalive was read in the lease's length before `t`, but for those that had just come.
def Silent (t : Time) : Prop :=
  ∀ k ∈ c.startedAt :: c.times "keepalive", k + .seconds c.leaseSeconds ≤ t ∨ t ≤ k + slack

-- The task was stopped in time, and for a reason.
structure Stopped (cause : End) (t : Time) : Prop where
  timeout    : t ≤ c.timeoutDeadline + slack
  lease      : t ≤ max c.spawnedAt c.leaseDeadline + slack
  cancel     : ∀ t' ∈ c.times "cancel", t ≤ max c.spawnedAt t' + slack
  of_timeout : cause = .timeout → c.timeoutDeadline ≤ t
  of_lease   : cause = .lease → c.Silent slack t
  of_cancel  : cause = .cancel → ∃ t' ∈ c.times "cancel", t' ≤ t

def Sound : Phase → Prop
  | .preparing                      => c.spawnedAt = c.startedAt
  | .running deadline unseen        =>
    deadline ≤ c.leaseDeadline ∧ (∀ t ∈ unseen, t ≤ now) ∧
      ∀ k ∈ c.startedAt :: c.times "keepalive",
        k + .seconds c.leaseSeconds ≤ deadline ∨ ∃ t ∈ unseen, t ≤ k
  | .terminating cause stopped      => c.Stopped slack cause stopped ∧ stopped ≤ now
  | .collecting cause stopped since =>
    c.Stopped slack cause stopped ∧ stopped ≤ since ∧ since ≤ now ∧
      since ≤ stopped + gracePeriod + slack
  | .done result finishedAt         => finishedAt ≤ now ∧
    ∀ cause out, result = .ok (cause, out) → ∃ t, c.Stopped slack cause t ∧ t ≤ finishedAt ∧
      finishedAt ≤ t + gracePeriod + outputPeriod + 2 * slack

-- What holds of an executor at any time.
structure Punctual (phase : Phase) : Prop where
  started   : c.startedAt ≤ c.spawnedAt
  spawned   : c.spawnedAt ≤ c.startedAt + slack
  past      : c.spawnedAt ≤ now
  latest    : ∀ k ∈ c.startedAt :: c.times "keepalive", k ≤ c.control.lastKeepalive
  read      : c.control.lastKeepalive ≤ now
  cancelled : c.control.cancelled ↔ ∃ t, t ∈ c.times "cancel"
  told      : ∀ t ∈ c.times "cancel", t ≤ now
  timely    : c.Timely now slack phase
  sound     : c.Sound now slack phase

end TaskContext

namespace TaskExecutor

open Executor

def start (timeoutSeconds leaseSeconds : Nat) (now : Time) : TaskExecutor where
  timeoutSeconds
  leaseSeconds
  startedAt := now
  spawnedAt := now
  control   := { lastKeepalive := now, cancelled := false }
  lines     := []
  phase     := .preparing
  now

variable (e : TaskExecutor)

def enter (phase : Phase) : TaskExecutor :=
  { e with phase }

def advance (step : Step) : TaskExecutor :=
  match step, e.phase with
  | .line value, .preparing               => { e with toTaskContext := e.hear e.now value }
  | .line value, .running deadline unseen => { e with
      toTaskContext := e.hear e.now value
      phase         := .running deadline (some (unseen.getD e.now))
    }
  | .spawn, _ => { e with phase := .running e.leaseDeadline none, spawnedAt := e.now }
  -- The child is killed when it is dropped.
  | .fail error, _            => e.enter (.done (.error error) e.now)
  | .observe, _               => e.enter (.running e.leaseDeadline none)
  | .select (.exit status), _ => e.enter (.collecting (.exit status) e.now e.now)
  | .select cause, _          => e.enter (.terminating cause e.now)
  | .reap, .terminating cause stopped | .kill, .terminating cause stopped =>
    e.enter (.collecting cause stopped e.now)
  | .collect out, .collecting cause .. => e.enter (.done (.ok (cause, out)) e.now)
  | .abandon, .collecting cause ..     =>
    e.enter (.done (.ok (cause, .report "" true "" true)) e.now)
  | .pass d, _                         => { e with now := e.now + d }
  | _, _                               => e

-- Which of several branches that are ready is taken is up to the runtime. Whatever is due is done
-- within `slack`.
def isReady (slack : Time) (step : Step) : Bool :=
  match step, e.phase with
  | .line _, _                          => true
  | .spawn, .preparing                  => true
  | .fail _, .preparing                 => true
  | .fail _, .running ..                => true
  | .fail _, .collecting ..             => true
  | .observe, .running _ unseen         => unseen.isSome
  | .select (.exit _), .running ..      => true
  | .select .timeout, .running ..       => e.timeoutDeadline ≤ e.now
  | .select .lease, .running deadline _ => deadline ≤ e.now
  | .select .cancel, .running ..        => e.control.cancelled
  | .reap, .terminating ..              => true
  | .kill, .terminating _ stopped       => stopped + gracePeriod ≤ e.now
  | .collect _, .collecting ..          => true
  | .abandon, .collecting _ _ since     => since + outputPeriod ≤ e.now
  | .pass d, phase                      => 0 ≤ d ∧ e.Timely (e.now + d) slack phase
  | _, _                                => false

end TaskExecutor

namespace TaskContext

open Executor

variable {c : TaskContext} {now slack : Time} {phase : Phase}

theorem timely_running_iff {deadline : Time} {unseen : Option Time} :
    c.Timely now slack (.running deadline unseen) ↔
      now ≤ c.timeoutDeadline + slack ∧ now ≤ max c.spawnedAt deadline + slack ∧
        (∀ t ∈ unseen, now ≤ t + slack) ∧
        ∀ t ∈ c.times "cancel", now ≤ max c.spawnedAt t + slack := by
  simp [Timely, timers, or_imp, forall_and]

theorem timely_iff {t : Time} (h : c.timers phase = [t]) :
    c.Timely now slack phase ↔ now ≤ t + slack := by
  simp [Timely, h]

-- Time passes until something is due and not done for too long.
theorem Punctual.pass {d : Time} (h : c.Punctual now slack phase) (hd : 0 ≤ d)
    (ht : c.Timely (now + d) slack phase) : c.Punctual (now + d) slack phase where
  started   := h.started
  spawned   := h.spawned
  past      := by linarith [h.past]
  latest    := h.latest
  read      := by linarith [h.read]
  cancelled := h.cancelled
  told t hm := by linarith [h.told t hm]
  timely    := ht
  sound     := by
    have hs := h.sound
    cases phase
    case preparing => exact hs
    case running => exact ⟨hs.1, fun t ht => by linarith [hs.2.1 t ht], hs.2.2⟩
    case terminating => exact ⟨hs.1, by linarith [hs.2]⟩
    case collecting => exact ⟨hs.1, hs.2.1, by linarith [hs.2.2.1], hs.2.2.2⟩
    case done => exact ⟨by linarith [hs.1], hs.2⟩

section Hear

variable {value : Json}

theorem times_hear {name : String} : (c.hear now value).times name =
    if isSet name value then now :: c.times name else c.times name := by
  simp only [times, hear, List.filter_cons]
  split <;> rfl

theorem lastKeepalive_hear : (c.hear now value).control.lastKeepalive =
    if isSet "keepalive" value then now else c.control.lastKeepalive :=
  rfl

theorem cancelled_hear :
    (c.hear now value).control.cancelled = (isSet "cancel" value || c.control.cancelled) :=
  rfl

theorem mem_times_hear {name : String} {t : Time} (h : t ∈ (c.hear now value).times name) :
    t = now ∨ t ∈ c.times name := by
  rw [times_hear] at h
  split at h
  case isTrue => exact List.mem_cons.mp h
  case isFalse => exact .inr h

theorem leaseDeadline_le_hear (h : c.control.lastKeepalive ≤ now) :
    c.leaseDeadline ≤ (c.hear now value).leaseDeadline := by
  simp only [leaseDeadline, hear, ControlState.read]
  split <;> linarith

theorem Punctual.hear {phase' : Phase} (h : c.Punctual now slack phase)
    (ht : (c.hear now value).Timely now slack phase')
    (hp : (c.hear now value).Sound now slack phase') :
    (c.hear now value).Punctual now slack phase' where
  started := h.started
  spawned := h.spawned
  past    := h.past
  latest  := by
    change ∀ k ∈ c.startedAt :: (c.hear now value).times "keepalive", _
    rw [times_hear, lastKeepalive_hear]
    split
    case isFalse => exact h.latest
    case isTrue =>
      have hl := h.latest
      simp only [List.forall_mem_cons] at hl ⊢
      exact ⟨hl.left.trans h.read, le_rfl, fun k hk => (hl.right k hk).trans h.read⟩
  read    := by
    rw [lastKeepalive_hear]
    split
    case isTrue => exact le_rfl
    case isFalse => exact h.read
  cancelled := by
    rw [times_hear, cancelled_hear, Bool.or_eq_true, h.cancelled]
    split
    case isTrue hc => simp [hc]
    case isFalse hc => simp [hc]
  told    := by
    intro t hm
    rcases mem_times_hear hm with rfl | hm
    · exact le_rfl
    · exact h.told t hm
  timely  := ht
  sound   := hp

-- A line is seen by the watchdog only later.
theorem Punctual.hear_running {deadline : Time} {unseen : Option Time}
    (h : c.Punctual now slack (.running deadline unseen)) (hs : 0 ≤ slack) :
    (c.hear now value).Punctual now slack (.running deadline (some (unseen.getD now))) := by
  have ⟨hd, hu, hk⟩ := h.sound
  have ⟨ht, hl, hw, hc⟩ := timely_running_iff.mp h.timely
  have hn : unseen.getD now ≤ now ∧ now ≤ unseen.getD now + slack := by
    cases unseen
    case none => exact ⟨le_rfl, by simpa using hs⟩
    case some t => exact ⟨hu t rfl, hw t rfl⟩
  refine h.hear (timely_running_iff.mpr ⟨ht, hl, by simpa using hn.right, fun t hm => ?_⟩)
    ⟨hd.trans (leaseDeadline_le_hear h.read), by simpa using hn.left, fun k hm => ?_⟩
  · rcases mem_times_hear hm with rfl | hm
    · change t ≤ max c.spawnedAt t + slack
      linarith [le_max_right c.spawnedAt t]
    · exact hc t hm
  · have hm : k = now ∨ k ∈ c.startedAt :: c.times "keepalive" := by
      rcases List.mem_cons.mp hm with rfl | hm
      · exact .inr List.mem_cons_self
      · exact (mem_times_hear hm).imp_right (List.mem_cons_of_mem _)
    rcases hm with rfl | hm
    · exact .inr ⟨_, rfl, hn.left⟩
    · refine (hk k hm).imp_right fun ⟨t, ht, hle⟩ => ⟨t, ?_, hle⟩
      cases ht
      rfl

end Hear

section Steps

variable {cause : End} {deadline stopped since : Time} {unseen : Option Time}

theorem Punctual.enter {phase' : Phase} (h : c.Punctual now slack phase)
    (ht : c.Timely now slack phase') (hp : c.Sound now slack phase') :
    c.Punctual now slack phase' :=
  { h with timely := ht, sound := hp }

theorem add_le_leaseDeadline (h : c.Punctual now slack phase) :
    ∀ k ∈ c.startedAt :: c.times "keepalive", k + .seconds c.leaseSeconds ≤ c.leaseDeadline := by
  intro k hk
  linarith [h.latest k hk, show c.leaseDeadline = c.control.lastKeepalive + _ from rfl]

theorem Punctual.spawn (h : c.Punctual now slack .preparing) (hs : 0 ≤ slack) :
    ({ c with spawnedAt := now } : TaskContext).Punctual now slack
      (.running c.leaseDeadline none) where
  started   := h.started.trans h.past
  spawned   := (timely_iff rfl).mp h.timely
  past      := le_rfl
  latest    := h.latest
  read      := h.read
  cancelled := h.cancelled
  told      := h.told
  timely    := by
    refine timely_running_iff.mpr ⟨?_, ?_, by simp, fun t _ => ?_⟩
    · simp only [timeoutDeadline, Time.seconds]
      linarith [Int.natCast_nonneg c.timeoutSeconds]
    · linarith [le_max_left now c.leaseDeadline]
    · linarith [le_max_left now t]
  sound     := ⟨le_rfl, by simp, fun k hk => .inl (add_le_leaseDeadline h k hk)⟩

theorem Punctual.observe (h : c.Punctual now slack (.running deadline unseen)) :
    c.Punctual now slack (.running c.leaseDeadline none) := by
  have hd := h.sound.left
  have ⟨ht, hl, _, hc⟩ := timely_running_iff.mp h.timely
  refine h.enter (timely_running_iff.mpr ⟨ht, ?_, by simp, hc⟩)
    ⟨le_rfl, by simp, fun k hk => .inl (add_le_leaseDeadline h k hk)⟩
  linarith [max_le_max_left c.spawnedAt hd]

-- The task stops now.
theorem Punctual.stop (h : c.Punctual now slack (.running deadline unseen))
    (ht : cause = .timeout → c.timeoutDeadline ≤ now) (hl : cause = .lease → deadline ≤ now)
    (hc : cause = .cancel → c.control.cancelled) : c.Stopped slack cause now := by
  have ⟨hd, hu, hk⟩ := h.sound
  have ⟨hmt, hml, hmw, hmc⟩ := timely_running_iff.mp h.timely
  exact {
    timeout    := hmt
    lease      := by linarith [max_le_max_left c.spawnedAt hd]
    cancel     := hmc
    of_timeout := ht
    of_lease   := by
      intro he k hk'
      rcases hk k hk' with hle | ⟨t, htm, hle⟩
      · exact .inl (hle.trans (hl he))
      · exact .inr (by linarith [hmw t htm])
    of_cancel  := by
      intro he
      have ⟨t, hm⟩ := h.cancelled.mp (hc he)
      exact ⟨t, hm, h.told t hm⟩
  }

theorem gracePeriod_nonneg : 0 ≤ gracePeriod := by
  decide

theorem outputPeriod_nonneg : 0 ≤ outputPeriod := by
  decide

theorem Punctual.terminate (h : c.Punctual now slack phase) (hs : 0 ≤ slack)
    (hst : c.Stopped slack cause now) : c.Punctual now slack (.terminating cause now) := by
  refine h.enter ((timely_iff rfl).mpr ?_) ⟨hst, le_rfl⟩
  linarith [gracePeriod_nonneg]

theorem Punctual.await (h : c.Punctual now slack phase) (hs : 0 ≤ slack)
    (hst : c.Stopped slack cause stopped) (hn : stopped ≤ now)
    (hg : now ≤ stopped + gracePeriod + slack) :
    c.Punctual now slack (.collecting cause stopped now) := by
  refine h.enter ((timely_iff rfl).mpr ?_) ⟨hst, hn, le_rfl, hg⟩
  linarith [outputPeriod_nonneg]

-- An executor that is not done is not late.
theorem Punctual.not_late (h : c.Punctual now slack phase) (hs : 0 ≤ slack)
    (hp : ∀ result t, phase ≠ .done result t) :
    now ≤ c.startedAt + .seconds c.timeoutSeconds + gracePeriod + outputPeriod + 4 * slack := by
  have hg := gracePeriod_nonneg
  have ho := outputPeriod_nonneg
  have hn : 0 ≤ Time.seconds c.timeoutSeconds := by
    simp only [Time.seconds]
    positivity
  have ht := h.timely
  have hst := h.sound
  have hd : c.timeoutDeadline = c.spawnedAt + .seconds c.timeoutSeconds := rfl
  cases phase
  case preparing => linarith [(timely_iff rfl).mp ht]
  case running => linarith [(timely_running_iff.mp ht).left, h.spawned]
  case terminating => linarith [(timely_iff rfl).mp ht, hst.1.timeout, h.spawned]
  case collecting => linarith [(timely_iff rfl).mp ht, hst.1.timeout, hst.2.2.2, h.spawned]
  case done result t => exact absurd rfl (hp result t)

theorem Punctual.fail {error : String} (h : c.Punctual now slack phase) :
    c.Punctual now slack (.done (.error error) now) :=
  h.enter (by simp [Timely, timers]) ⟨le_rfl, nofun⟩

theorem Punctual.collect {out : ProcessOutput}
    (h : c.Punctual now slack (.collecting cause stopped since)) :
    c.Punctual now slack (.done (.ok (cause, out)) now) := by
  have ⟨hst, h₁, h₂, h₃⟩ := h.sound
  have ht := (timely_iff rfl).mp h.timely
  refine h.enter (by simp [Timely, timers]) ⟨le_rfl, fun _ _ he => ?_⟩
  cases he
  exact ⟨stopped, hst, h₁.trans h₂, by linarith⟩

end Steps

end TaskContext

namespace TaskExecutor

open Executor

def Punctual (e : TaskExecutor) (slack : Time) : Prop :=
  e.toTaskContext.Punctual e.now slack e.phase

variable {e : TaskExecutor} {slack : Time}

-- Only a line changes the control state.
theorem advance_frame (e : TaskExecutor) {step : Step} (he : e.isReady slack step) :
    (e.advance step).leaseSeconds = e.leaseSeconds ∧ e.now ≤ (e.advance step).now ∧
      ((e.advance step).control = e.control ∨ ∃ value, step = .line value ∧
        (e.advance step).control = e.control.read value e.now) := by
  obtain ⟨c, phase, now⟩ := e
  cases step
  case pass d =>
    have hd := (of_decide_eq_true he).left
    exact ⟨rfl, le_add_of_nonneg_right hd, .inl rfl⟩
  case line value =>
    cases phase
    case preparing | running => exact ⟨rfl, le_rfl, .inr ⟨value, rfl, rfl⟩⟩
    all_goals exact ⟨rfl, le_rfl, .inl rfl⟩
  case select cause => cases cause <;> exact ⟨rfl, le_rfl, .inl rfl⟩
  all_goals cases phase <;> exact ⟨rfl, le_rfl, .inl rfl⟩

theorem Punctual.start (timeoutSeconds leaseSeconds : Nat) (now : Time) (hs : 0 ≤ slack) :
    (start timeoutSeconds leaseSeconds now).Punctual slack where
  started   := le_rfl
  spawned   := by simpa [TaskExecutor.start] using hs
  past      := le_rfl
  latest    := by simp [TaskContext.times, TaskExecutor.start]
  read      := le_rfl
  cancelled := by simp [TaskContext.times, TaskExecutor.start]
  told      := by simp [TaskContext.times, TaskExecutor.start]
  timely    := (TaskContext.timely_iff rfl).mpr (le_add_of_nonneg_right hs)
  sound     := rfl

theorem Punctual.line (h : e.Punctual slack) (hs : 0 ≤ slack) (value : Json) :
    (e.advance (.line value)).Punctual slack := by
  obtain ⟨c, phase, now⟩ := e
  cases phase
  case preparing => exact h.hear h.timely h.sound
  case running => exact h.hear_running hs
  all_goals exact h

theorem Punctual.select (h : e.Punctual slack) (hs : 0 ≤ slack) {cause : End}
    (he : e.isReady slack (.select cause)) : (e.advance (.select cause)).Punctual slack := by
  obtain ⟨c, phase, now⟩ := e
  cases phase <;> cases cause <;> try contradiction
  case running.exit =>
    refine h.await hs (h.stop nofun nofun nofun) le_rfl ?_
    linarith [TaskContext.gracePeriod_nonneg]
  case running.timeout => exact h.terminate hs (h.stop (fun _ => of_decide_eq_true he) nofun nofun)
  case running.lease   => exact h.terminate hs (h.stop nofun (fun _ => of_decide_eq_true he) nofun)
  case running.cancel  => exact h.terminate hs (h.stop nofun nofun fun _ => he)

theorem Punctual.advance (h : e.Punctual slack) (hs : 0 ≤ slack) {step : Step}
    (he : e.isReady slack step) : (e.advance step).Punctual slack := by
  cases step
  case line value => exact h.line hs value
  case select cause => exact h.select hs he
  case pass d =>
    have ⟨hd, ht⟩ := of_decide_eq_true he
    exact TaskContext.Punctual.pass h hd ht
  all_goals
    obtain ⟨c, phase, now⟩ := e
    cases phase <;> try contradiction
  case spawn => exact TaskContext.Punctual.spawn h hs
  case observe => exact TaskContext.Punctual.observe h
  case fail.preparing | fail.running | fail.collecting => exact TaskContext.Punctual.fail h
  case reap.terminating | kill.terminating =>
    have hst := h.sound
    exact h.await hs hst.1 hst.2 ((TaskContext.timely_iff rfl).mp h.timely)
  case collect | abandon => exact TaskContext.Punctual.collect h

-- While the process is there, nothing that should stop it is long past.
theorem Punctual.of_isAlive (h : e.Punctual slack) (hs : 0 ≤ slack) (ha : e.phase.isAlive) :
    e.now ≤ e.timeoutDeadline + gracePeriod + 2 * slack ∧
      e.now ≤ max e.spawnedAt e.leaseDeadline + gracePeriod + 2 * slack ∧
      ∀ t ∈ e.times "cancel", e.now ≤ max e.spawnedAt t + gracePeriod + 2 * slack := by
  have hg := TaskContext.gracePeriod_nonneg
  have hsound := h.sound
  have htimely := h.timely
  obtain ⟨c, phase, now⟩ := e
  cases phase <;> try contradiction
  case running deadline unseen =>
    have ⟨ht, hl, _, hc⟩ := TaskContext.timely_running_iff.mp htimely
    have hd := max_le_max_left c.spawnedAt hsound.1
    refine ⟨by linarith, by linarith, fun t hm => ?_⟩
    linarith [hc t hm]
  case terminating cause stopped =>
    have hst := hsound.1
    have ht := (TaskContext.timely_iff rfl).mp htimely
    refine ⟨by linarith [hst.timeout], by linarith [hst.lease], fun t hm => ?_⟩
    linarith [hst.cancel t hm]

-- An executor whose task does nothing is not stuck.
theorem Punctual.can_go_on (h : e.Punctual slack) (hs : 0 ≤ slack)
    (hd : ∀ result t, e.phase ≠ .done result t) :
    (∃ step, step.isOwn ∧ e.isReady slack step) ∨ e.isReady slack (.pass 1) := by
  obtain ⟨c, phase, now⟩ := e
  by_cases ht : ∃ t ∈ c.timers phase, t ≤ now
  case neg =>
    refine .inr (decide_eq_true ⟨by decide, fun t hm => ?_⟩)
    have := not_le.mp fun hle => ht ⟨t, hm, hle⟩
    have : now + 1 ≤ t := this
    change now + 1 ≤ t + slack
    linarith
  case pos =>
    left
    obtain ⟨t, hm, hle⟩ := ht
    cases phase
    case preparing => exact ⟨.spawn, rfl, rfl⟩
    case running deadline unseen =>
      simp only [TaskContext.timers, List.mem_append, List.mem_cons, List.mem_map,
        List.not_mem_nil, or_false, Option.mem_toList] at hm
      rcases hm with ((rfl | rfl) | hu) | ⟨t', hc, rfl⟩
      · exact ⟨.select .timeout, rfl, decide_eq_true hle⟩
      · exact ⟨.select .lease, rfl, decide_eq_true ((le_max_right _ _).trans hle)⟩
      · exact ⟨.observe, rfl, Option.isSome_of_mem hu⟩
      · exact ⟨.select .cancel, rfl, h.cancelled.mpr ⟨t', hc⟩⟩
    case terminating => exact ⟨.kill, rfl, by simp_all [TaskContext.timers, isReady]⟩
    case collecting => exact ⟨.abandon, rfl, by simp_all [TaskContext.timers, isReady]⟩
    case done result t => exact absurd rfl (hd result t)

end TaskExecutor

def taskExecutor (slack : Time) : Machine TaskExecutor Executor.Step where
  exec          := TaskExecutor.advance
  Enabled e step := e.isReady slack step

instance (slack : Time) (e : TaskExecutor) (step : Executor.Step) :
    Decidable ((taskExecutor slack).Enabled e step) :=
  inferInstanceAs (Decidable (e.isReady slack step = true))

namespace TaskExecutor

open Executor

variable {timeoutSeconds leaseSeconds : Nat} {t₀ slack : Time} {e : TaskExecutor}

theorem punctual (hs : 0 ≤ slack) (h : (taskExecutor slack).Reachable
    (start timeoutSeconds leaseSeconds t₀) e) : e.Punctual slack :=
  h.invariant (I := (·.Punctual slack)) (fun _ _ hp he => hp.advance hs he) (.start _ _ _ hs)

-- Whatever the task does: its process is gone soon after its timeout, after the lease that its
-- agent was last told to be fresh, and after a cancellation, and the executor gets to a result.

-- A task of ten seconds that does not stop when it is asked to.
def stubbornTask : List Step :=
  [.spawn, .pass 4000, .line (.object [("keepalive", .bool true)]), .observe, .pass 6000,
    .select .timeout, .pass 5000]

-- A result that blames the clock, the agent or an administrator is right.

end TaskExecutor

-- An attempt at its agent. `leaseExpiresAt` is the lease that the coordinator has stored, and
-- `renewals` are the times at which it did.
structure LeasedTask where
  executor       : TaskExecutor
  leaseExpiresAt : Time
  renewals       : List Time

namespace LeasedTask

open Executor

inductive Action
  | renew (leaseSeconds : Nat)
  | step  (step : Step)

def exec (s : LeasedTask) : Action → LeasedTask
  | .renew leaseSeconds => { s with
      leaseExpiresAt := s.executor.now + .seconds leaseSeconds
      renewals       := s.executor.now :: s.renewals
    }
  | .step step          => { s with executor := s.executor.advance step }

-- Agents pass on a keepalive for each renewal that they are told of, which takes no longer than
-- `delay`. A lease is not made shorter than the one that the executor was given.
def Enabled (delay slack : Time) (s : LeasedTask) : Action → Prop
  | .renew leaseSeconds => s.executor.leaseSeconds ≤ leaseSeconds
  | .step step          => s.executor.isReady slack step ∧ ∀ value, step = .line value →
      isSet "keepalive" value → ∃ t ∈ s.renewals, s.executor.now ≤ t + delay

-- The executor of an attempt that was leased at `t`.
def start (timeoutSeconds leaseSeconds : Nat) (t now : Time) : LeasedTask where
  executor       := .start timeoutSeconds leaseSeconds now
  leaseExpiresAt := t + .seconds leaseSeconds
  renewals       := [t]

end LeasedTask

def leasedTask (delay slack : Time) : Machine LeasedTask LeasedTask.Action where
  exec    := LeasedTask.exec
  Enabled := LeasedTask.Enabled delay slack

namespace LeasedTask

open Executor

variable {s : LeasedTask} {delay slack t t₀ : Time} {timeoutSeconds leaseSeconds : Nat}

-- The executor goes by a renewal that it heard of in time.
structure Renewed (delay slack : Time) (s : LeasedTask) : Prop where
  punctual : s.executor.Punctual slack
  stored   : ∀ t ∈ s.renewals, t ≤ s.executor.now ∧
    t + .seconds s.executor.leaseSeconds ≤ s.leaseExpiresAt
  heard    : ∃ t ∈ s.renewals, s.executor.control.lastKeepalive ≤ t + delay

theorem Renewed.renew (h : s.Renewed delay slack) {n : Nat} (hn : s.executor.leaseSeconds ≤ n) :
    (s.exec (.renew n)).Renewed delay slack where
  punctual := h.punctual
  stored   := by
    have hl : s.executor.now + .seconds s.executor.leaseSeconds ≤ s.executor.now + .seconds n := by
      simp only [Time.seconds]
      gcongr
    refine List.forall_mem_cons.mpr ⟨⟨le_rfl, hl⟩, fun t ht => ⟨(h.stored t ht).1, ?_⟩⟩
    exact (add_le_add_left (h.stored t ht).1 _).trans hl
  heard    :=
    have ⟨t, ht, hle⟩ := h.heard
    ⟨t, List.mem_cons_of_mem _ ht, hle⟩

theorem Renewed.step (h : s.Renewed delay slack) (hs : 0 ≤ slack) {step : Step}
    (he : Enabled delay slack s (.step step)) : (s.exec (.step step)).Renewed delay slack where
  punctual := h.punctual.advance hs he.1
  stored t ht := by
    have ⟨hl, hn, _⟩ := s.executor.advance_frame he.1
    have ⟨h₁, h₂⟩ := h.stored t ht
    exact ⟨h₁.trans hn, by simpa only [exec, hl] using h₂⟩
  heard := by
    have ⟨_, _, hc⟩ := s.executor.advance_frame he.1
    rcases hc with hc | ⟨value, rfl, hc⟩
    · simpa only [exec, hc] using h.heard
    · simp only [exec, hc, ControlState.read]
      split
      case isTrue hk => exact he.2 value rfl hk
      case isFalse => exact h.heard

-- The process of an attempt is gone soon after its lease has expired in the coordinator's store.
theorem task_within_lease (hs : 0 ≤ slack) (ht : t ≤ t₀) (hd : t₀ ≤ t + delay)
    (h : (leasedTask delay slack).Reachable (start timeoutSeconds leaseSeconds t t₀) s)
    (ha : s.executor.phase.isAlive) :
    s.executor.now ≤ s.leaseExpiresAt + delay + gracePeriod + 3 * slack := by
  have hr : s.Renewed delay slack := by
    refine h.invariant (fun s act hr he => ?_) ?_
    · cases act
      case renew => exact hr.renew he
      case step => exact hr.step hs he
    · exact ⟨.start _ _ _ hs, by simp [start, TaskExecutor.start, ht], t, by simp [start], hd⟩
  have ⟨t', hm, hk⟩ := hr.heard
  have hl := (hr.stored t' hm).2
  have ⟨_, hb, _⟩ := hr.punctual.of_isAlive hs ha
  have hk' := hr.punctual.latest _ List.mem_cons_self
  have hn : 0 ≤ Time.seconds s.executor.leaseSeconds := by
    simp only [Time.seconds]
    positivity
  have hm : max s.executor.spawnedAt s.executor.leaseDeadline ≤
      s.leaseExpiresAt + delay + slack := by
    refine max_le ?_ ?_
    · linarith [hr.punctual.spawned]
    · rw [TaskContext.leaseDeadline]
      linarith
  linarith

-- A task that is renewed when it has just been started.
theorem task_within_lease_renewed :
    let s := (leasedTask 1000 100).run (start 10 30 0 500) [.step .spawn, .renew 30]
    s.executor.phase.isAlive ∧ s.executor.now ≤ s.leaseExpiresAt + 1000 + gracePeriod + 300 := by
  intro s
  have hr : (leasedTask 1000 100).Reachable (start 10 30 0 500) s :=
    .run .refl (.cons ⟨rfl, nofun⟩ (.cons (le_refl 30) .nil))
  exact ⟨rfl, task_within_lease (by decide) (by decide) (by decide) hr rfl⟩

end LeasedTask

end Scheduler
