import TaskScheduler.Library.Table
import TaskScheduler.Library.Machine
import TaskScheduler.Core.Domain

namespace Scheduler

-- What an offer carries to the agent.
structure ExecutionAssignment where
  scheduleId    : Uuid
  runId         : Uuid
  attemptId     : Uuid
  attemptNumber : Nat
  leaseToken    : String
  leaseSeconds  : Nat
  snapshot      : ExecutionSnapshot
  deriving DecidableEq, Repr

inductive LedgerState
  | accepted
  | claimed
  | running
  | cancelRequested
  | cancelled
  | finished
  | acknowledged
  | quarantined
  deriving DecidableEq, Repr

-- The states from which `cancel` takes an assignment.
def LedgerState.isOpen : LedgerState → Bool
  | accepted | claimed | running => true
  | _                            => false

-- The states in which the process that runs an assignment may store its result.
def LedgerState.isEligible : LedgerState → Bool
  | running | cancelRequested => true
  | _                         => false

-- A row of the agent's `assignments`.
structure LedgerRow where
  attemptId      : Uuid
  leaseToken     : String
  assignmentJson : String
  state          : LedgerState
  resultJson     : Option String
  runnerId       : Option String
  updatedAt      : Time
  deriving DecidableEq, Repr

instance : Keyed LedgerRow Uuid := ⟨LedgerRow.attemptId⟩

-- The row is free, or it was taken by another lifetime of the process.
def LedgerRow.claimable (runner : String) (r : LedgerRow) : Bool :=
  r.state = .accepted || ((r.state = .claimed || r.state = .running) && r.runnerId ≠ some runner)

-- `ORDER BY updated_at,attempt_id`
def LedgerRow.precedes (r₁ r₂ : LedgerRow) : Bool :=
  r₁.updatedAt < r₂.updatedAt || (r₁.updatedAt = r₂.updatedAt && r₁.attemptId ≤ r₂.attemptId)

structure PendingResult where
  attemptId  : Uuid
  leaseToken : String
  resultJson : String
  deriving DecidableEq, Repr

structure Ledger where
  assignments : Table LedgerRow

namespace Ledger

def empty : Ledger where
  assignments := ∅

variable (l : Ledger)

def record (assignment : ExecutionAssignment) (json : String) (now : Time) :
    Except String (Bool × Ledger) :=
  let row : LedgerRow := {
    attemptId      := assignment.attemptId
    leaseToken     := assignment.leaseToken
    assignmentJson := json
    state          := .accepted
    resultJson     := none
    runnerId       := none
    updatedAt      := now
  }
  match l.assignments.insert row, l.assignments.get? assignment.attemptId with
  | some assignments, _    => .ok (true, { assignments })
  | none, none             => .error "no rows returned by a query that expected to return at least one row"
  | none, some existing    =>
    if existing.leaseToken ≠ assignment.leaseToken || existing.assignmentJson ≠ json then
      .error s!"conflicting duplicate assignment for attempt {assignment.attemptId}"
    else
      .ok (false, l)

-- An `UPDATE` of one assignment, and whether a row was affected.
def updateOne (p : LedgerRow → Bool) (f : LedgerRow → LedgerRow)
    (hf : ∀ r, Keyed.key (f r) = Keyed.key r := by exact Keyed.keeps fun _ => rfl) : Bool × Ledger :=
  (l.assignments.rows.any p, { assignments := l.assignments.update p f hf })

def claim (runner : String) (assignment : ExecutionAssignment) (json : String) (now : Time) :
    Bool × Ledger :=
  l.updateOne (fun r => r.attemptId = assignment.attemptId && r.leaseToken = assignment.leaseToken &&
    r.assignmentJson = json && r.claimable runner) fun r =>
    { r with state := .claimed, runnerId := some runner, updatedAt := now }

def start (runner : String) (attemptId : Uuid) (now : Time) : Bool × Ledger :=
  l.updateOne (fun r => r.attemptId = attemptId && r.state = .claimed && r.runnerId = some runner) fun r =>
    { r with state := .running, updatedAt := now }

def cancel (attemptId : Uuid) (now : Time) : Bool × Ledger :=
  l.updateOne (fun r => r.attemptId = attemptId && r.state.isOpen) fun r =>
    { r with
      state     := if r.state = .running then .cancelRequested else .cancelled
      updatedAt := now
    }

-- A result that is already there is accepted once more if it is the same.
def saveResult (runner : String) (attemptId : Uuid) (resultJson : String) (now : Time) :
    Except String Ledger :=
  let update := l.updateOne (fun r => r.attemptId = attemptId && r.runnerId = some runner &&
    r.state.isEligible) fun r =>
    { r with state := .finished, resultJson := some resultJson, updatedAt := now }
  if update.1 then
    .ok update.2
  else if l.assignments.rows.any fun r => r.attemptId = attemptId && r.runnerId = some runner &&
    r.state = .finished && r.resultJson = some resultJson then
    .ok l
  else
    .error "attempt is not owned, running, or result-eligible"

def acknowledge (attemptId : Uuid) (now : Time) : Except String Ledger :=
  let update := l.updateOne (fun r => r.attemptId = attemptId && r.state = .finished &&
    r.resultJson.isSome) fun r => { r with state := .acknowledged, updatedAt := now }
  if update.1 then
    .ok update.2
  else if (l.assignments.get? attemptId).any (·.state = .acknowledged) then
    .ok l
  else
    .error "only a finished attempt result can be acknowledged"

def pendingResults : List PendingResult :=
  l.assignments.rows.filterMap fun r =>
    if r.state = .finished then r.resultJson.map (⟨r.attemptId, r.leaseToken, ·⟩) else none

-- The rows that `recoverable_assignments` selects.
def recoverable (runner : String) : List LedgerRow :=
  l.assignments.select (·.claimable runner) |>.insertionSort (fun r₁ r₂ => r₁.precedes r₂)

def quarantine (attemptId : Uuid) (now : Time) : Ledger where
  assignments := l.assignments.update (·.attemptId = attemptId) fun r =>
    { r with state := .quarantined, updatedAt := now }

end Ledger

-- How assignments are decoded. A lifetime of the process may be one of another version, which does not
-- understand every text that an earlier one wrote.
structure Decoder where
  parse       : String → Option ExecutionAssignment
  understands : String → String → Bool

def Decoder.decode (d : Decoder) (runner json : String) : Option ExecutionAssignment :=
  if d.understands runner json then d.parse json else none

-- A call of `recoverable_assignments` that is under way.
structure Recovery where
  selected  : List LedgerRow
  todo      : List LedgerRow
  recovered : List String

inductive LedgerEvent
  | claimed   (runner : String) (attemptId : Uuid)
  | started   (runner : String) (attemptId : Uuid)
  | cancelled (attemptId : Uuid)
  | saved     (runner : String) (attemptId : Uuid)
  deriving DecidableEq, Repr

-- The ledger of an agent, the lifetime that owns it, and what was done through it, newest first.
structure AgentProcess where
  ledger     : Ledger
  runner     : String
  past       : List String
  recoveries : Nat → Option Recovery
  log        : List LedgerEvent

-- The calls of one lifetime through any of its clones. Each statement of `recoverable_assignments` is a
-- step of its own. `boot` ends a lifetime at any point and begins the next one.
inductive LedgerAction
  | boot        (runner : String)
  | record      (assignment : ExecutionAssignment) (json : String) (now : Time)
  | claim       (assignment : ExecutionAssignment) (json : String) (now : Time)
  | start       (attemptId : Uuid) (now : Time)
  | cancel      (attemptId : Uuid) (now : Time)
  | saveResult  (attemptId : Uuid) (resultJson : String) (now : Time)
  | acknowledge (attemptId : Uuid) (now : Time)
  | recover     (call : Nat)
  | next        (call : Nat) (now : Time)

namespace AgentProcess

def initial (runner : String) : AgentProcess where
  ledger       := .empty
  runner
  past         := []
  recoveries _ := none
  log          := []

variable (d : Decoder) (σ : AgentProcess)

def log? (happened : Bool) (event : LedgerEvent) : List LedgerEvent :=
  if happened then event :: σ.log else σ.log

def setRecovery (call : Nat) (recovery : Recovery) : AgentProcess :=
  { σ with recoveries := Function.update σ.recoveries call (some recovery) }

def exec : LedgerAction → AgentProcess
  | .boot runner => { σ with runner, past := σ.runner :: σ.past, recoveries := fun _ => none }
  | .record assignment json now =>
    match σ.ledger.record assignment json now with
    | .ok (_, ledger) => { σ with ledger }
    | .error _        => σ
  | .claim assignment json now =>
    let update := σ.ledger.claim σ.runner assignment json now
    { σ with
      ledger := update.2
      log    := σ.log? update.1 (.claimed σ.runner assignment.attemptId)
    }
  | .start id now =>
    let update := σ.ledger.start σ.runner id now
    { σ with ledger := update.2, log := σ.log? update.1 (.started σ.runner id) }
  | .cancel id now =>
    let update := σ.ledger.cancel id now
    { σ with ledger := update.2, log := σ.log? update.1 (.cancelled id) }
  | .saveResult id json now =>
    match σ.ledger.saveResult σ.runner id json now with
    | .ok ledger => { σ with ledger, log := .saved σ.runner id :: σ.log }
    | .error _   => σ
  | .acknowledge id now =>
    match σ.ledger.acknowledge id now with
    | .ok ledger => { σ with ledger }
    | .error _   => σ
  | .recover call =>
    let rows := σ.ledger.recoverable σ.runner
    σ.setRecovery call ⟨rows, rows, []⟩
  | .next call now =>
    match σ.recoveries call with
    | some ⟨selected, row :: todo, recovered⟩ =>
      if (d.decode σ.runner row.assignmentJson).isSome then
        σ.setRecovery call ⟨selected, todo, recovered ++ [row.assignmentJson]⟩
      else
        { σ with ledger := σ.ledger.quarantine row.attemptId now }.setRecovery call
          ⟨selected, todo, recovered⟩
    | _ => σ

-- The agent decodes a text before it passes it on together with the assignment, and each lifetime
-- draws a new identifier.
def Enabled : LedgerAction → Prop
  | .boot runner => runner ≠ σ.runner ∧ runner ∉ σ.past
  | .record assignment json _ | .claim assignment json _ => d.decode σ.runner json = some assignment
  | _ => True

instance : ∀ act, Decidable (σ.Enabled d act)
  | .boot runner => inferInstanceAs (Decidable (runner ≠ σ.runner ∧ runner ∉ σ.past))
  | .record assignment json _ | .claim assignment json _ =>
    inferInstanceAs (Decidable (d.decode σ.runner json = some assignment))
  | .start .. | .cancel .. | .saveResult .. | .acknowledge .. | .recover _ | .next .. => .isTrue trivial

end AgentProcess

def agentProcess (d : Decoder) : Machine AgentProcess LedgerAction where
  exec    := AgentProcess.exec d
  Enabled := AgentProcess.Enabled d

instance {d : Decoder} {σ : AgentProcess} {act : LedgerAction} :
    Decidable ((agentProcess d).Enabled σ act) :=
  inferInstanceAs (Decidable (σ.Enabled d act))

end Scheduler
