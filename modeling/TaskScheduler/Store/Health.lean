import TaskScheduler.Store.Attempts

namespace Scheduler

structure NewHealthEvidence where
  attemptId         : Option Uuid
  runId             : Uuid
  scheduleId        : Uuid
  agentId           : String
  blueprintDigest   : String
  inputFingerprint  : String
  classification    : HealthClassification
  diagnostic        : Option FailureDiagnostic
  nodeWasHealthy    : Bool
  clusterSuppressed : Bool
  occurredAt        : Time

-- `ORDER BY occurred_at,id`
def HealthEvidence.precedes (e₁ e₂ : HealthEvidence) : Bool :=
  e₁.occurredAt < e₂.occurredAt || (e₁.occurredAt = e₂.occurredAt && e₁.id ≤ e₂.id)

-- `WHERE blueprint_digest=? AND input_fingerprint=?`
def HealthEvidence.isAbout (digest fingerprint : String) (e : HealthEvidence) : Bool :=
  e.blueprintDigest = digest && e.inputFingerprint = fingerprint

-- The item states that a confirmation turns into poisoned ones.
def BatchItemState.isPoisonable : BatchItemState → Bool
  | queued | failed | suspectedPoison => true
  | _                                 => false

def NodeHealthState.reason : NodeHealthState → Option String
  | healthy           => none
  | suspect           => some "diverse_infrastructure_failures"
  | autoQuarantined   => some "automatic_health_threshold"
  | manualQuarantined => some "administrator_quarantine"
  | probation         => some "administrator_reset"

def NodeHealth.initial (agentId : String) (now : Time) : NodeHealth where
  agentId
  state                    := .healthy
  reasonCode               := none
  distinctFailedInputs     := 0
  distinctSchedules        := 0
  consideredObservations   := 0
  failureRate              := 0
  probationFunctionalCount := 0
  probationDistinctInputs  := 0
  revision                 := 1
  transitionedAt           := now

namespace Store

variable (s : Store)

section Agents

def upsertAgent (id hostname : String) (labels : List (String × String)) (capacity running : Nat)
    (now : Time) : Transaction Unit :=
  let row : Agent := {
    id
    hostname
    labels
    capacity
    running
    connected  := true
    lastSeenAt := now
    createdAt  := now
  }
  let agents := s.agents.upsert row fun a =>
    { a with hostname, labels, capacity, running, connected := true, lastSeenAt := now }
  let nodeHealth := s.nodeHealth.insertOrIgnore <| .initial id now
  .commit () <| { s with agents, nodeHealth }.appendAudit (.agent id) .agentConnected

def disconnectAgent (id : String) : Transaction Unit :=
  let agents := s.agents.update (·.id = id) fun a => { a with connected := false }
  .commit () <| { s with agents }.appendAudit (.agent id) .agentDisconnected

end Agents

def poisonDistinctNodesForRun (runId : Uuid) : Nat :=
  let batch := (s.runs.get? runId).bind (·.batchId) |>.bind s.batches.get?
  min (max (batch.map (·.poisonDistinctNodes) |>.getD 2) 2) 32

-- `INSERT OR IGNORE INTO health_evidence`. An ignored row is not checked against foreign keys.
def insertEvidence (e : NewHealthEvidence) (id : Uuid) (now : Time) : Except StoreError Store :=
  let row : HealthEvidence := {
    id
    attemptId         := e.attemptId
    runId             := e.runId
    scheduleId        := e.scheduleId
    agentId           := e.agentId
    blueprintDigest   := e.blueprintDigest
    inputFingerprint  := e.inputFingerprint
    classification    := e.classification
    diagnostic        := e.diagnostic
    nodeWasHealthy    := e.nodeWasHealthy
    clusterSuppressed := e.clusterSuppressed
    retracted         := false
    occurredAt        := e.occurredAt
    createdAt         := now
  }
  if e.attemptId.isSome && s.healthEvidence.rows.any (·.attemptId = e.attemptId) then
    .ok s
  else
    match s.healthEvidence.insert row with
    | none                => .ok s
    | some healthEvidence =>
      if e.attemptId.any (s.attempts.get? · |>.isNone) || (s.runs.get? e.runId).isNone ||
        (s.schedules.get? e.scheduleId).isNone then
        .error .foreignKeyViolation
      else
        .ok <| { s with healthEvidence }.appendAudit (.run e.runId) .healthEvidenceRecorded

def inputObservations (digest fingerprint : String) : List InputHealthObservation :=
  s.healthEvidence.select (·.isAbout digest fingerprint)
    |>.insertionSort (fun e₁ e₂ => e₁.precedes e₂)
    |>.map fun e => {
      agentId        := e.agentId
      occurredAt     := e.occurredAt
      classification := e.classification
      nodeWasHealthy := e.nodeWasHealthy
    }

def upsertInputHealth (digest fingerprint : String) (evaluation : InputHealthEvaluation)
    (now : Time) : Store :=
  let row : InputHealth := {
    blueprintDigest      := digest
    inputFingerprint     := fingerprint
    state                := evaluation.state
    failureFamily        := evaluation.family
    distinctHealthyNodes := evaluation.distinctHealthyNodes
    probeAvailable       := false
    revision             := 1
    updatedAt            := now
  }
  { s with
    inputHealth := s.inputHealth.upsert row fun i =>
      { i with
        state                := evaluation.state
        failureFamily        := evaluation.family
        distinctHealthyNodes := evaluation.distinctHealthyNodes
        probeAvailable       := evaluation.state = .confirmed && i.probeAvailable
        revision             := i.revision + 1
        updatedAt            := now
      }
  }

section Reconcile

def hasEvidence (digest fingerprint : String) (runId : Uuid) : Bool :=
  s.healthEvidence.rows.any fun e => e.isAbout digest fingerprint && e.runId = runId

-- The bookkeeping of one batch of which `confirmed` items were poisoned.
def confirmBatchPoison (batchId : Uuid) (confirmed : Nat) : Store :=
  let counted := s.batches.update (·.id = batchId) fun b =>
    { b with poisonedItemCount := b.poisonedItemCount + confirmed }
  let drained := (s.childRuns batchId).all (·.state.isTerminal)
  let batches := counted.update (fun b => b.id = batchId && b.state = .running && drained) fun b =>
    { b with state := .completedWithErrors }
  { s with batches }.appendAudit (.batch batchId) .batchPoisonConfirmed

def reconcileConfirmedCollectionItems (digest fingerprint : String) : Store :=
  let poisoned := s.hasEvidence digest fingerprint
  let hit (i : BatchItem) : Bool := i.runId.any poisoned && i.state.isPoisonable
  let hits := s.batchItems.select hit
  let s₁ : Store := { s with
    runs       := s.runs.update (fun r => r.state = .queued && poisoned r.id) fun r =>
      { r with state := .failed }
    batchItems := s.batchItems.update hit fun i =>
      { i with state := .poisoned, failureCode := some "collection_input_poisoned" }
  }
  let s₂ := hits.foldl (fun s i => s.appendAudit (.batchItem i.id) .batchItemPoisonConfirmed) s₁
  (hits.map (·.batchId)).dedup.foldl (confirm hits) s₂
where
  confirm (hits : List BatchItem) (s : Store) (batchId : Uuid) : Store :=
    s.confirmBatchPoison batchId <| hits.countP (·.batchId = batchId)

end Reconcile

section Nodes

-- The row that `ensure_node_health_tx` finds or creates.
def ensureNodeHealth (agentId : String) (now : Time) : Except StoreError (NodeHealth × Store) :=
  match s.nodeHealth.get? agentId with
  | some node => .ok (node, s)
  | none      =>
    if (s.agents.get? agentId).isNone then
      .error .foreignKeyViolation
    else
      let node := .initial agentId now
      .ok (node, { s with nodeHealth := s.nodeHealth.insertOrIgnore node })

def nodeObservations (agentId : String) (since : Time) : List NodeHealthObservation :=
  s.healthEvidence.select (fun e => e.agentId = agentId && since ≤ e.occurredAt)
    |>.insertionSort (fun e₁ e₂ => e₁.precedes e₂)
    |>.map fun e => {
      scheduleId        := e.scheduleId
      inputFingerprint  := e.inputFingerprint
      occurredAt        := e.occurredAt
      classification    := e.classification
      retracted         := e.retracted
      clusterSuppressed := e.clusterSuppressed
    }

def rescoreNode (order : HashOrder) (agentId : String) (now : Time) : Except StoreError Store :=
  match s.ensureNodeHealth agentId now with
  | .error e          => .error e
  | .ok (current, s₁) =>
    let since := if current.state = .probation then current.transitionedAt else now - .minutes 15
    let observations := s₁.nodeObservations agentId since
    let evaluation := evaluateNodeHealth order observations now
    let next := applyNodeHealthEvaluation current.state evaluation observations
    let nodeHealth := s₁.nodeHealth.update (·.agentId = agentId) fun n =>
      { n with
        state                  := next
        reasonCode             := next.reason
        distinctFailedInputs   := evaluation.distinctFailedInputs
        distinctSchedules      := evaluation.distinctSchedules
        consideredObservations := evaluation.consideredObservations
        failureRate            := evaluation.failureRate
        revision               := n.revision + 1
        transitionedAt         := if n.state = next then n.transitionedAt else now
      }
    let s₂ : Store := { s₁ with nodeHealth }
    .ok <| if current.state = next then s₂ else s₂.appendAudit (.node agentId) .nodeHealthTransitioned

def rescoreNodes (order : HashOrder) (now : Time) : Store → List String → Except StoreError Store
  | s, []            => .ok s
  | s, agentId :: tl =>
    match s.rescoreNode order agentId now with
    | .error e => .error e
    | .ok s₁   => rescoreNodes order now s₁ tl

def setNodeManualQuarantine (agentId : String) (quarantined : Bool) (now : Time) :
    Transaction Unit :=
  match s.ensureNodeHealth agentId now with
  | .error e          => .error e
  | .ok (current, s₁) =>
    if !quarantined && !(current.state = .manualQuarantined || current.state = .autoQuarantined) then
      .bail "only a quarantined node can be reset to probation"
    else
      let nodeHealth := s₁.nodeHealth.update (·.agentId = agentId) fun n =>
        { n with
          state          := if quarantined then .manualQuarantined else .probation
          reasonCode     :=
            some <| if quarantined then "administrator_quarantine" else "administrator_reset"
          revision       := n.revision + 1
          transitionedAt := now
        }
      .commit () <| { s₁ with nodeHealth }.appendAudit (.node agentId) <|
        if quarantined then .nodeHealthManuallyQuarantined else .nodeHealthResetToProbation

end Nodes

-- What a confirmed input changes before the nodes are scored again: its ambiguous evidence no longer
-- counts against the nodes, and its queued runs are taken off the queue.
def confirmPoison (digest fingerprint : String) : Store :=
  let ambiguous (e : HealthEvidence) : Bool :=
    e.isAbout digest fingerprint && e.classification.class = .ambiguous
  { s with
    healthEvidence := s.healthEvidence.update ambiguous fun e => { e with retracted := true }
  }.reconcileConfirmedCollectionItems digest fingerprint

-- The evaluation that the evidence of an input amounts to.
def evaluateInput (digest fingerprint : String) (poisonDistinctNodes : Nat) : InputHealthEvaluation :=
  evaluateInputHealth (s.inputObservations digest fingerprint) poisonDistinctNodes

def recordHealthEvidence (e : NewHealthEvidence) (poisonDistinctNodes : Nat) (id : Uuid)
    (order : HashOrder) (now : Time) : Transaction InputHealthState :=
  match s.insertEvidence e id now with
  | .error err => .error err
  | .ok s₁     =>
    let evaluation := s₁.evaluateInput e.blueprintDigest e.inputFingerprint poisonDistinctNodes
    let previous := s₁.inputHealth.get? (e.blueprintDigest, e.inputFingerprint) |>.map (·.state)
    let s₂ := s₁.upsertInputHealth e.blueprintDigest e.inputFingerprint evaluation now
    let confirmed := evaluation.state = .confirmed
    let affected := s₂.healthEvidence.select (fun e' =>
      e'.isAbout e.blueprintDigest e.inputFingerprint && e'.classification.class = .ambiguous)
      |>.map (·.agentId)
    let agents := if confirmed then (e.agentId :: affected).dedup else [e.agentId]
    let s₃ := if confirmed then s₂.confirmPoison e.blueprintDigest e.inputFingerprint else s₂
    let s₄ :=
      if previous = some evaluation.state then s₃
      else s₃.appendAudit (.inputHealth e.inputFingerprint) .inputHealthTransitioned
    match rescoreNodes order now s₄ agents with
    | .error err => .error err
    | .ok s₅     => .commit evaluation.state s₅

def grantInputProbe (digest fingerprint : String) (now : Time) : Transaction Unit :=
  let confirmed (i : InputHealth) : Bool :=
    i.blueprintDigest = digest && i.inputFingerprint = fingerprint && i.state = .confirmed
  if s.inputHealth.rows.any confirmed then
    let inputHealth := s.inputHealth.update confirmed fun i =>
      { i with probeAvailable := true, revision := i.revision + 1, updatedAt := now }
    .commit () <| { s with inputHealth }.appendAudit (.inputHealth fingerprint) .inputHealthProbeGranted
  else
    .bail "confirmed input health record not found"

def consumeProbeOrIsHeld (digest fingerprint : String) (now : Time) : Transaction Bool :=
  match s.inputHealth.get? (digest, fingerprint) with
  | none       => .commit false s
  | some input =>
    if input.state ≠ .confirmed then
      .commit false s
    else if input.probeAvailable then
      let inputHealth := s.inputHealth.update (fun i => i.blueprintDigest = digest &&
        i.inputFingerprint = fingerprint && i.probeAvailable) fun i =>
        { i with probeAvailable := false, revision := i.revision + 1, updatedAt := now }
      .commit false <|
        { s with inputHealth }.appendAudit (.inputHealth fingerprint) .inputHealthProbeConsumed
    else
      .commit true s

end Store

end Scheduler
