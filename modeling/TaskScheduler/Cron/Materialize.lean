import TaskScheduler.Cron.Calendar
import TaskScheduler.Triggers.Idempotency

namespace Scheduler

-- What schedules go through beside the store: the calendar, the checks of blueprints and of source
-- URIs, the JSON schema validator, the templates of executors, digests and encryption.
structure CronRuntime where
  calendar           : Calendar
  invalidBlueprint   : Blueprint → Option String
  invalidSource      : String → Option String
  validateParameters : (schema parameters : Json) → Except String Unit
  renderExecutor     : (executor parameters : Json) → Except String Json
  blueprintDigest    : Blueprint → String
  parametersDigest   : Json → String
  encryptSeed        : ResolvedScheduleSnapshot → ParameterCollectionSpec → Blob
  seedDigest         : ResolvedScheduleSnapshot → ParameterCollectionSpec → String
  encryptOverrides   : Json → Blob

namespace CronRuntime

variable (rt : CronRuntime)

-- `ParameterCollectionSpec::validate`
def validateCollection (collection : ParameterCollectionSpec) : Option String :=
  if isBlank collection.sourceUri then
    some "parameter collection source_ref.uri must not be empty"
  else
    match rt.invalidSource collection.sourceUri with
    | some message => some message
    | none         =>
      if ¬(1 ≤ collection.pageSize ∧ collection.pageSize ≤ 1000) then
        some "parameter collection page_size must be between 1 and 1000"
      else if ¬(1 ≤ collection.maxItems ∧ collection.maxItems ≤ 10000) then
        some "parameter collection max_items must be between 1 and 10000"
      else if ¬(1 ≤ collection.maxActiveRuns ∧ collection.maxActiveRuns ≤ 1000) then
        some "parameter collection max_active_runs must be between 1 and 1000"
      else if ¬(2 ≤ collection.poisonDistinctNodes ∧ collection.poisonDistinctNodes ≤ 32) then
        some "parameter collection poison_distinct_nodes must be between 2 and 32"
      else
        none

def validateScheduleSpec (spec : ScheduleSpec) : Option String :=
  if isBlank spec.name then
    some "schedule name is required"
  else
    match spec.parameterCollection.bind rt.validateCollection with
    | some message => some message
    | none         => spec.cron.bind rt.calendar.invalid

-- What `resolve_and_encrypt` makes of the fetched blueprint and parameters.
def resolveAndEncrypt (spec : ScheduleSpec) (blueprint : Blueprint) (parameters : Json) :
    Except String (Sealed ResolvedScheduleSnapshot) :=
  let resolved : ResolvedScheduleSnapshot := { blueprint, baseParameters := parameters }
  match rt.invalidBlueprint blueprint with
  | some message => .error message
  | none         =>
    if !parameters.isObject then
      .error "parameters must be a JSON object"
    else if spec.parameterCollection.isNone ∧ blueprint.parameterBindings = [] then
      match rt.validateParameters blueprint.parametersSchema parameters with
      | .error message => .error message
      | .ok _          => .ok (some resolved)
    else
      .ok (some resolved)

-- The schedule is one that the API has accepted.
def Accepts (schedule : Schedule) : Prop :=
  rt.validateScheduleSpec schedule.spec = none ∧
    ∃ blueprint parameters, rt.resolveAndEncrypt schedule.spec blueprint parameters = .ok schedule.encryptedSnapshot

def resolveSnapshot (resolved : ResolvedScheduleSnapshot) (parameters : Json) :
    Except String ExecutionSnapshot :=
  let blueprint := resolved.blueprint
  let snapshot : ExecutionSnapshot := {
    blueprintDigest  := rt.blueprintDigest blueprint
    parametersDigest := rt.parametersDigest parameters
  }
  if !parameters.isObject then
    .error "parameters must be a JSON object"
  else if blueprint.parameterBindings = [] then
    match rt.validateParameters blueprint.parametersSchema parameters with
    | .error message => .error message
    | .ok _          =>
      match rt.renderExecutor blueprint.executor parameters with
      | .error message => .error message
      | .ok _          => .ok snapshot
  else if blueprint.parameterBindings.any parameters.containsKey then
    .error "saved parameters must not contain values for bound parameters"
  else
    .ok snapshot

def buildRunFromSchedule (schedule : Schedule) (overrides : Json) (triggerKind : TriggerKind)
    (scheduledAt : Time) (idempotencyKey : Option String) (id : Uuid) : Except String NewRun :=
  if !schedule.spec.enabled then
    .error "schedule is paused"
  else
    match schedule.encryptedSnapshot with
    | none          => .error "snapshot decryption failed"
    | some resolved =>
      match mergeParameters resolved.baseParameters overrides with
      | .error message => .error message
      | .ok parameters =>
        match rt.resolveSnapshot resolved parameters with
        | .error message => .error message
        | .ok snapshot   => .ok {
            id
            scheduleId            := schedule.id
            triggerKind
            scheduledAt
            encryptedSnapshot     := some snapshot
            maxAttempts           := resolved.blueprint.policy.maxAttempts
            initialBackoffSeconds := resolved.blueprint.policy.initialBackoffSeconds
            backoffCapSeconds     := resolved.blueprint.policy.backoffCapSeconds
            idempotencyKey
          }

def buildCronBatch (schedule : Schedule) (scheduledAt : Time) (id : Uuid) : Except String NewBatch :=
  match schedule.spec.parameterCollection with
  | none            => .error "schedule has no parameter collection"
  | some collection =>
    match schedule.encryptedSnapshot with
    | none          => .error "snapshot decryption failed"
    | some resolved => .ok {
        id
        scheduleId          := schedule.id
        scheduleRevision    := schedule.revision
        triggerKind         := .cron
        scheduledAt
        idempotencyKey      := none
        encryptedSnapshot   := rt.encryptSeed resolved collection
        encryptedOverrides  := some <| rt.encryptOverrides (.object [])
        snapshotDigest      := rt.seedDigest resolved collection
        pageSize            := collection.pageSize
        maxItems            := collection.maxItems
        maxActiveRuns       := collection.maxActiveRuns
        poisonDistinctNodes := collection.poisonDistinctNodes
      }

end CronRuntime

-- The instant after which a schedule has not fired yet.
def Schedule.cursor (r : Schedule) : Time :=
  r.lastCronAt.getD r.createdAt

-- `cron_schedules`. The query does not order its rows; `order` is the order they come in.
def Store.cronSchedules (s : Store) (order : List Uuid) : List Schedule :=
  order.filterMap fun id =>
    (s.schedules.get? id).filter fun r => r.enabled && r.cronExpression.isSome

-- The identifiers and the clock reading that an insert draws.
structure Draw where
  id        : Uuid
  triggerId : Uuid
  now       : Time
  deriving DecidableEq, Repr

namespace Store

variable (rt : CronRuntime) (s : Store)

-- One round of the inner loop of `materialize_cron`. The result tells whether the loop goes on.
def materializeOccurrence (record : Schedule) (cron : CronSpec) (next : Time) (draw : Draw) :
    Transaction Bool :=
  if record.spec.parameterCollection.isSome then
    match rt.buildCronBatch record next draw.id with
    | .error message => .bail message
    | .ok new        =>
      match s.createCronBatch new record.revision cron draw.triggerId draw.now with
      | .error e                 => .error e
      | .ok (.applied _, s')     => .commit true s'
      | .ok (.staleSchedule, s') => .commit false s'
  else
    match rt.buildRunFromSchedule record (.object []) .cron next none draw.id with
    | .error message => .bail message
    | .ok new        =>
      match s.createCronOccurrence new record.revision cron draw.triggerId draw.now with
      | .error e                 => .error e
      | .ok (.applied _, s')     => .commit true s'
      | .ok (.staleSchedule, s') => .commit false s'

-- The inner loop. What was committed before an error stays.
def materializeSchedule (record : Schedule) (cron : CronSpec) (draws : Uuid → Time → Draw) (s : Store) :
    (due : List Time) → Store × Option StoreError
  | []          => (s, none)
  | next :: due =>
    match s.materializeOccurrence rt record cron next (draws record.id next) with
    | .error e        => (s, some e)
    | .ok (false, s') => (s', none)
    | .ok (true, s')  => materializeSchedule record cron draws s' due

-- The outer loop, with the clock as it was read at the start.
def materializeCron (now : Time) (draws : Uuid → Time → Draw) (s : Store) :
    (records : List Schedule) → Store × Option StoreError
  | []                => (s, none)
  | record :: records =>
    match record.spec.cron with
    | none      => materializeCron now draws s records
    | some cron =>
      match rt.calendar.dueCronBatch cron record.cursor now with
      | .error message => (s, some <| .bail message)
      | .ok due        =>
        match s.materializeSchedule rt record cron draws due with
        | (s', some e) => (s', some e)
        | (s', none)   => materializeCron now draws s' records

end Store

-- The occurrences of one schedule that a pass has still to insert.
structure Firing where
  record : Schedule
  cron   : CronSpec
  due    : List Time

-- A pass of `materialize_cron` between two of its steps.
inductive Pass
  | begun   (now : Time)
  | working (now : Time) (todo : List Schedule) (firing : Option Firing)

namespace Pass

def now : Pass → Time
  | begun now | working now .. => now

def firing : Pass → Option Firing
  | begun _            => none
  | working _ _ firing => firing

-- The schedules as the pass has read them.
def records : Pass → List Schedule
  | begun _               => []
  | working _ todo firing => firing.toList.map (·.record) ++ todo

end Pass

-- The coordinator as far as cron is concerned: passes are cut between their transactions, and any
-- number of them is under way.
structure CronState where
  store  : Store
  clock  : Time
  passes : Nat → Option Pass

inductive CronAction
  | tick  (now : Time)
  | exec  (op : Op)
  | begin (pass : Nat)
  | read  (pass : Nat) (order : List Uuid)
  | step  (pass : Nat) (draw : Draw)
  | crash

-- The time at which a transaction says that a schedule was changed.
def Op.reading : Op → Option Time
  | .createSchedule _ now         => some now
  | .updateSchedule _ _ _ _ now   => some now
  | .setScheduleEnabled _ _ now   => some now
  | _                             => none

-- Cron occurrences are created, and cursors advanced, by passes only.
def Op.isCron : Op → Bool
  | .createRun new ..            => new.triggerKind = .cron
  | .createBatch new ..          => new.triggerKind = .cron
  | .createCronOccurrence ..     => true
  | .createCronBatch ..          => true
  | .advanceCronCursor ..        => true
  | _                            => false

namespace CronState

variable (rt : CronRuntime) (σ : CronState)

def setPass (i : Nat) (p : Option Pass) : CronState :=
  { σ with passes := Function.update σ.passes i p }

-- The next schedule of a pass. A failing calendar ends it.
def advance (i : Nat) (now : Time) : (todo : List Schedule) → CronState
  | []             => σ.setPass i none
  | record :: todo =>
    match record.spec.cron with
    | none      => σ.setPass i (some <| .working now todo none)
    | some cron =>
      match rt.calendar.dueCronBatch cron record.cursor now with
      | .error _ => σ.setPass i none
      | .ok due  => σ.setPass i (some <| .working now todo (some { record, cron, due }))

-- The next occurrence of a schedule. A failing insert ends the pass, a stale schedule only the loop.
def fire (i : Nat) (now : Time) (todo : List Schedule) (record : Schedule) (cron : CronSpec)
    (next : Time) (due : List Time) (draw : Draw) : CronState :=
  match σ.store.materializeOccurrence rt record cron next draw with
  | .error _            => σ.setPass i none
  | .ok (false, store)  => { σ with store }.setPass i (some <| .working now todo none)
  | .ok (true, store)   =>
    { σ with store }.setPass i (some <| .working now todo (some { record, cron, due }))

def exec : CronAction → CronState
  | .tick now     => { σ with clock := now }
  | .exec op      => { σ with store := σ.store.exec op }
  | .begin i      => σ.setPass i (some <| .begun σ.clock)
  | .read i order =>
    match σ.passes i with
    | some (.begun now) => σ.setPass i (some <| .working now (σ.store.cronSchedules order) none)
    | _                 => σ
  | .step i draw  =>
    match σ.passes i with
    | some (.working now todo (some { record, cron, due := next :: due })) =>
      σ.fire rt i now todo record cron next due draw
    | some (.working now todo _) => σ.advance rt i now todo
    | _                          => σ
  | .crash        => { σ with passes := fun _ => none }

def Enabled : CronAction → Prop
  | .exec op      => op.isCron = false ∧ ∀ now ∈ op.reading, now = σ.clock
  | .read _ order => order.Perm (σ.store.schedules.rows.map (·.id))
  | _             => True

instance : ∀ a, Decidable (σ.Enabled a)
  | .exec op      => inferInstanceAs (Decidable (op.isCron = false ∧ ∀ now ∈ op.reading, now = σ.clock))
  | .read _ order => inferInstanceAs (Decidable (order.Perm _))
  | .tick _ | .begin _ | .step .. | .crash => .isTrue trivial

def initial : CronState where
  store    := .empty
  clock    := 0
  passes _ := none

end CronState

-- Passes and the other transactions in any order.
def cronMachine (rt : CronRuntime) : Machine CronState CronAction where
  exec    := CronState.exec rt
  Enabled := CronState.Enabled

instance {rt : CronRuntime} {σ : CronState} {a : CronAction} : Decidable ((cronMachine rt).Enabled σ a) :=
  inferInstanceAs (Decidable (σ.Enabled a))

end Scheduler
