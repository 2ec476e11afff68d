import TaskScheduler.Library.Machine
import TaskScheduler.Store.Health

namespace Scheduler

structure NodeSettings where
  revision             : Int := 1
  enabled              : Bool := true
  labels               : List (String × String) := []
  maxParallel          : Nat := 2
  excelMaxParallel     : Nat := 1
  allowedCommandRoots  : List String := []
  allowedWorkbookRoots : List String := []
  otlpEndpoint         : Option String := none
  deriving DecidableEq, Repr

-- `global`, `node:{id}` and `dashboard`.
inductive DocumentKey
  | global
  | node (agentId : String)
  | dashboard
  deriving DecidableEq, Repr

-- A row of `settings_documents`. The text is represented by the node settings that it decodes to.
structure SettingsDocument where
  key      : DocumentKey
  document : Option NodeSettings
  revision : Int
  deriving DecidableEq, Repr

-- A row of `edit_locks`.
structure EditLock where
  key          : DocumentKey
  ownerSession : String
  lockToken    : String
  expiresAt    : Time
  deriving DecidableEq, Repr

-- A row of `agents` with the columns that tell how far the node's settings have come.
structure RegisteredAgent extends Agent where
  desiredSettingsRevision : Int
  appliedSettingsRevision : Int
  settingsError           : Option String
  deriving DecidableEq, Repr

instance : Keyed SettingsDocument DocumentKey := ⟨SettingsDocument.key⟩
instance : Keyed EditLock DocumentKey         := ⟨EditLock.key⟩
instance : Keyed RegisteredAgent String       := ⟨fun a => a.id⟩

inductive SettingsAckStatus
  | applied
  | rejected
  | ignored
  deriving DecidableEq, Repr

structure SettingsAckOutcome where
  status          : SettingsAckStatus
  desiredRevision : Int
  appliedRevision : Int
  appliedSettings : Option NodeSettings
  deriving DecidableEq, Repr

structure AgentRegistration where
  desiredSettings         : NodeSettings
  appliedSettingsRevision : Int
  deriving DecidableEq, Repr

-- The tables that hold the nodes and their settings.
structure Registry where
  agents    : Table RegisteredAgent
  documents : Table SettingsDocument
  locks     : Table EditLock

namespace Registry

abbrev Result (α : Type) := Except StoreError (α × Registry)

def initial : Registry where
  agents    := ∅
  documents := ⟨[⟨.global, none, 1⟩, ⟨.dashboard, none, 1⟩], by decide⟩
  locks     := ∅

variable (ρ : Registry)

-- The message for a document that does not decode is the one of the JSON library.
def undecodable : StoreError :=
  .bail "invalid settings document"

def upsertAgent (id hostname : String) (labels : List (String × String)) (capacity running : Nat)
    (now : Time) : Result AgentRegistration :=
  let documents := ρ.documents.insertOrIgnore {
    key      := .node id
    document := some { labels, maxParallel := capacity }
    revision := 1
  }
  match documents.get? (.node id) with
  | none     => .error undecodable
  | some row =>
    match row.document with
    | none          => .error undecodable
    | some settings =>
      let agent : RegisteredAgent := {
        id
        hostname
        labels
        capacity
        running
        connected               := true
        lastSeenAt              := now
        createdAt               := now
        desiredSettingsRevision := row.revision
        appliedSettingsRevision := 0
        settingsError           := none
      }
      let agents := ρ.agents.upsert agent fun a =>
        { a with hostname, labels, capacity, running, connected := true, lastSeenAt := now }
      let applied := (agents.get? id).elim 0 (·.appliedSettingsRevision)
      .ok (⟨{ settings with revision := row.revision }, applied⟩, { ρ with agents, documents })

def disconnectAgent (id : String) : Result Unit :=
  .ok ((), { ρ with agents := ρ.agents.update (·.id = id) fun a => { a with connected := false } })

-- What `renew_attempts` does to the agent.
def heartbeat (id : String) (running : Nat) (now : Time) : Result Unit :=
  .ok ((), { ρ with
    agents := ρ.agents.update (·.id = id) fun a =>
      { a with running, lastSeenAt := now, connected := true }
  })

-- The agent that an acknowledgement is about: a rejection is current only until a success for the
-- same revision was recorded.
def acknowledges (id : String) (revision : Int) (error : Option String) (a : RegisteredAgent) : Bool :=
  a.id = id && a.desiredSettingsRevision = revision &&
    match error with
    | some _ => a.appliedSettingsRevision < revision
    | none   => a.appliedSettingsRevision ≤ revision

-- A rejection only sets the error, a success clears it.
def acknowledge (revision : Int) (error : Option String) (a : RegisteredAgent) : RegisteredAgent :=
  { a with
    appliedSettingsRevision := error.elim revision fun _ => a.appliedSettingsRevision
    settingsError           := error
  }

def settingsApplied (id : String) (revision : Int) (error : Option String) : Result SettingsAckOutcome :=
  let agents := ρ.agents.update (acknowledges id revision error) (acknowledge revision error)
  match agents.get? id with
  | none         => .error <| .bail s!"agent {id} not found"
  | some current =>
    let desired := current.desiredSettingsRevision
    let applied := current.appliedSettingsRevision
    if !ρ.agents.rows.any (acknowledges id revision error) then
      .ok (⟨.ignored, desired, applied, none⟩, { ρ with agents })
    else if error.isSome then
      .ok (⟨.rejected, desired, applied, none⟩, { ρ with agents })
    else
      match ρ.documents.rows.find? fun d => d.key = .node id && d.revision = applied with
      | none     => .error <| .bail
        s!"applied settings document for agent {id} revision {applied} not found"
      | some row =>
        match row.document with
        | none          => .error undecodable
        | some settings =>
          let settings := { settings with revision := row.revision }
          let agents := agents.update (fun a => a.id = id &&
            a.desiredSettingsRevision = settings.revision &&
            a.appliedSettingsRevision = settings.revision) fun a =>
            { a with labels := settings.labels, capacity := settings.maxParallel }
          .ok (⟨.applied, desired, applied, some settings⟩, { ρ with agents })

def updateSettings (key : DocumentKey) (expectedRevision : Int) (document : Option NodeSettings)
    (lockToken : String) (now : Time) : Result Int :=
  match ρ.locks.get? key with
  | none      => .error <| .bail "settings edit lock is required"
  | some lock =>
    if lock.lockToken ≠ lockToken || lock.expiresAt ≤ now then
      .error <| .bail "settings edit lock is invalid or expired"
    else
      let current (d : SettingsDocument) : Bool := d.key = key && d.revision = expectedRevision
      if !ρ.documents.rows.any current then
        .error <| .bail "settings revision conflict"
      else
        let documents := ρ.documents.update current fun d =>
          { d with document, revision := d.revision + 1 }
        let agents := ρ.agents.update (fun a => key = .node a.id) fun a =>
          { a with desiredSettingsRevision := expectedRevision + 1, settingsError := none }
        .ok (expectedRevision + 1, { ρ with agents, documents })

def acquireLock (key : DocumentKey) (owner token : String) (now : Time) : Result EditLock :=
  let locks := ρ.locks.delete fun l => l.key = key && l.expiresAt ≤ now
  let lock : EditLock := ⟨key, owner, token, now + .minutes 2⟩
  match locks.insert lock with
  | some locks => .ok (lock, { ρ with locks })
  | none       =>
    let owner := (locks.get? key).elim owner (·.ownerSession)
    .error <| .bail s!"settings are currently being edited by {owner}"

def renewLock (key : DocumentKey) (token : String) (now : Time) : Result Time :=
  let held (l : EditLock) : Bool := l.key = key && l.lockToken = token
  if !ρ.locks.rows.any held then
    .error <| .bail "settings edit lock not found"
  else
    let locks := ρ.locks.update held fun l => { l with expiresAt := now + .minutes 2 }
    .ok (now + .minutes 2, { ρ with locks })

def releaseLock (key : DocumentKey) (token : String) (force : Bool) : Result Unit :=
  .ok ((), { ρ with locks := ρ.locks.delete fun l => l.key = key && (force || l.lockToken = token) })

end Registry

inductive RegistryOp
  | upsertAgent (id hostname : String) (labels : List (String × String)) (capacity running : Nat)
      (now : Time)
  | disconnectAgent (id : String)
  | heartbeat (id : String) (running : Nat) (now : Time)
  | settingsApplied (id : String) (revision : Int) (error : Option String)
  | updateSettings (key : DocumentKey) (expectedRevision : Int) (document : Option NodeSettings)
      (lockToken : String) (now : Time)
  | acquireLock (key : DocumentKey) (owner token : String) (now : Time)
  | renewLock (key : DocumentKey) (token : String) (now : Time)
  | releaseLock (key : DocumentKey) (token : String) (force : Bool)

namespace Registry

-- The registry once a transaction ended.
def Result.persisted {α : Type} (ρ : Registry) : Result α → Registry
  | .ok (_, ρ') => ρ'
  | .error _    => ρ

def exec (ρ : Registry) : RegistryOp → Registry
  | .upsertAgent id hostname labels capacity running now =>
    (ρ.upsertAgent id hostname labels capacity running now).persisted ρ
  | .disconnectAgent id => (ρ.disconnectAgent id).persisted ρ
  | .heartbeat id running now => (ρ.heartbeat id running now).persisted ρ
  | .settingsApplied id revision error => (ρ.settingsApplied id revision error).persisted ρ
  | .updateSettings key revision document token now =>
    (ρ.updateSettings key revision document token now).persisted ρ
  | .acquireLock key owner token now => (ρ.acquireLock key owner token now).persisted ρ
  | .renewLock key token now => (ρ.renewLock key token now).persisted ρ
  | .releaseLock key token force => (ρ.releaseLock key token force).persisted ρ

end Registry

-- The registry under transactions in any order, with any arguments.
def registry : Machine Registry RegistryOp where
  exec        := Registry.exec
  Enabled _ _ := True

instance {ρ : Registry} {op : RegistryOp} : Decidable (registry.Enabled ρ op) :=
  .isTrue trivial

end Scheduler
