import TaskScheduler.Store.Queue
import TaskScheduler.Store.Operations

namespace Scheduler

inductive ParameterBindingSource
  | environment
  | secretFile
  deriving DecidableEq, Repr

structure ParameterBinding where
  source : ParameterBindingSource
  name   : String
  deriving DecidableEq, Repr

-- What the snapshot of a run asks of a node.
structure Requirements where
  labels   : List (String × String)
  bindings : List ParameterBinding
  deriving DecidableEq, Repr

namespace NodeHealthState

def acceptsNewWork : NodeHealthState → Bool
  | healthy | suspect | probation       => true
  | autoQuarantined | manualQuarantined => false

def capacityLimit : NodeHealthState → Option Nat
  | probation => some 1
  | _         => none

end NodeHealthState

-- The stream of a connected node. `isOpen` tells whether it still takes messages.
structure AgentSession where
  agentId                 : String
  connectionId            : Uuid
  isOpen                  : Bool
  enabled                 : Bool
  labels                  : List (String × String)
  capacity                : Nat
  appliedSettingsRevision : Int
  running                 : Nat
  health                  : NodeHealthState
  lastAssigned            : Time
  environmentBindings     : List String
  secretFileBindings      : List String
  deriving DecidableEq, Repr

instance : Keyed AgentSession String where
  key := AgentSession.agentId

theorem AgentSession.keeps_release (s : AgentSession) :
    Keyed.key { s with running := s.running - 1 } = Keyed.key s :=
  rfl

namespace AgentSession

variable (session : AgentSession)

-- The capacity that the health of the node leaves.
def limit : Nat :=
  session.health.capacityLimit.elim session.capacity (min session.capacity)

def supports (req : Requirements) : Bool :=
  req.bindings.all fun b =>
    match b.source with
    | .environment => b.name ∈ session.environmentBindings
    | .secretFile  => b.name ∈ session.secretFileBindings

-- The node could take the run if it had a free slot.
def suits (req : Requirements) (excluded : List String) : Bool :=
  session.enabled && session.agentId ∉ excluded && session.health.acceptsNewWork &&
    req.labels.all (fun l => session.labels.lookup l.1 = some l.2) && session.supports req

def isEligible (req : Requirements) (excluded : List String) : Bool :=
  session.suits req excluded && session.running < session.limit

end AgentSession

structure AppState where
  store    : Store
  sessions : Table AgentSession

-- What became of a candidate.
inductive Decision
  | noEligibleAgent
  | reservationLost
  | streamClosed (agentId : String)
  | offered (agentId : String)
  deriving DecidableEq, Repr

namespace AppState

-- The quotient `running as f64 / capacity as f64`, of which only the order matters, and the requirements
-- in the snapshots of runs.
variable {L : Type} [LinearOrder L] (load : Nat → Nat → L) (requirements : Uuid → Requirements)

-- The least loaded session, among these the one that has waited longest.
def selectAgent (sessions : Table AgentSession) (req : Requirements) (excluded : List String) :
    Option AgentSession :=
  sessions.select (·.isEligible req excluded)
    |> Ranking.least fun s => toLex (load s.running (max s.capacity 1), toLex (s.lastAssigned, s.agentId))

-- A slot that is below the capacity can be counted without overflow.
def reserveAgentAvoiding (σ : AppState) (req : Requirements) (excluded : List String) (now : Time) :
    Option (AgentSession × AppState) :=
  (selectAgent load σ.sessions req excluded).map fun session =>
    (session, { σ with
      sessions := σ.sessions.update (·.agentId = session.agentId) fun s =>
        { s with running := s.running + 1, lastAssigned := now }
    })

def releaseAgentSlot (σ : AppState) (agentId : String) : AppState :=
  { σ with
    sessions := σ.sessions.update (·.agentId = agentId) fun s => { s with running := s.running - 1 }
  }

-- The session that a run is offered to. If no other node is left, it may be one that has failed it.
def reserveForRun (σ : AppState) (runId : Uuid) (now : Time) : Option (AgentSession × AppState) :=
  let avoided := σ.store.retryAvoidedAgents runId
  match σ.reserveAgentAvoiding load (requirements runId) avoided now with
  | some reservation => some reservation
  | none             =>
    if avoided ≠ [] && !σ.store.retryRequiresAlternativeAgent runId then
      σ.reserveAgentAvoiding load (requirements runId) [] now
    else
      none

-- `attemptId` and `leaseToken` are fresh values.
def dispatchRun (σ : AppState) (run : Run) (leaseSeconds : Nat) (attemptId : Uuid) (leaseToken : String)
    (now : Time) : Except StoreError (Decision × AppState) :=
  match run.encryptedSnapshot with
  | none   => .error (.bail "snapshot decryption failed")
  | some _ =>
    match σ.reserveForRun load requirements run.id now with
    | none               => .ok (.noEligibleAgent, σ)
    | some (session, σ₁) =>
      match σ₁.store.createAttempt run.id session.agentId leaseSeconds attemptId leaseToken now with
      | .error e               => .error e
      | .ok (none, _)          => .ok (.reservationLost, σ₁.releaseAgentSlot session.agentId)
      | .ok (some attempt, s₁) =>
        if session.isOpen then
          .ok (.offered session.agentId, { σ₁ with store := s₁ })
        else
          match s₁.releaseOffer attempt.id with
          | .error e    => .error e
          | .ok (_, s₂) =>
            .ok (.streamClosed session.agentId, { σ₁ with store := s₂ }.releaseAgentSlot session.agentId)

-- The fresh values that each candidate is given.
structure Fresh where
  attemptId  : Uuid → Uuid
  leaseToken : Uuid → String

def dispatchAll (leaseSeconds : Nat) (fresh : Fresh) (now : Time) :
    List Run → AppState → Except StoreError (List (Run × Decision) × AppState)
  | [], σ        => .ok ([], σ)
  | run :: tl, σ =>
    match σ.dispatchRun load requirements run leaseSeconds (fresh.attemptId run.id)
      (fresh.leaseToken run.id) now with
    | .error e      => .error e
    | .ok (d, σ₁)   =>
      match dispatchAll leaseSeconds fresh now tl σ₁ with
      | .error e      => .error e
      | .ok (ds, σ₂)  => .ok ((run, d) :: ds, σ₂)

def dispatch (σ : AppState) (leaseSeconds : Nat) (fresh : Fresh) (now : Time) :
    Except StoreError (List (Run × Decision) × AppState) :=
  dispatchAll load requirements leaseSeconds fresh now (σ.store.queuedRuns now 100) σ

end AppState

end Scheduler
