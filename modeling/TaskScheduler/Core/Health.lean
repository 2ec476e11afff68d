import TaskScheduler.Core.Domain

namespace Scheduler

inductive FailureFamily
  | functional
  | cancellation
  | lease
  | executorAvailability
  | bindingAvailability
  | isolation
  | processLaunch
  | crash
  | timeout
  | excelHost
  | excelInvocation
  | excelContract
  | cleanup
  | infrastructure
  deriving DecidableEq, Repr

-- The families in declaration order, that is, ordered by `family as u8`.
def FailureFamily.all : List FailureFamily := [
  functional, cancellation, lease, executorAvailability, bindingAvailability, isolation,
  processLaunch, crash, timeout, excelHost, excelInvocation, excelContract, cleanup,
  infrastructure
]

theorem FailureFamily.mem_all (f : FailureFamily) : f ∈ all := by
  cases f <;> decide

inductive HealthEvidenceClass
  | functional
  | ignore
  | clusterSensitive
  | ambiguous
  | strongNodeLocal
  deriving DecidableEq, Repr

def HealthEvidenceClass.isFailure : HealthEvidenceClass → Bool
  | ambiguous | strongNodeLocal             => true
  | functional | ignore | clusterSensitive  => false

structure HealthClassification where
  «class» : HealthEvidenceClass
  family  : FailureFamily
  deriving DecidableEq, Repr

def classifyFailureCode : FailureCode → HealthClassification
  | .processExitedNonZero | .excelMacroReturnedFailure =>
    ⟨.functional, .functional⟩
  | .cancelled =>
    ⟨.ignore, .cancellation⟩
  | .agentLeaseExpired =>
    ⟨.clusterSensitive, .lease⟩
  | .executorStartFailed | .executorProtocolError | .excelUnsupported =>
    ⟨.strongNodeLocal, .executorAvailability⟩
  | .parameterBindingFailed =>
    ⟨.strongNodeLocal, .bindingAvailability⟩
  | .processIsolationFailed =>
    ⟨.strongNodeLocal, .isolation⟩
  | .excelStartupFailed =>
    ⟨.strongNodeLocal, .excelHost⟩
  | .assignmentRejected | .processSpawnFailed =>
    ⟨.ambiguous, .processLaunch⟩
  | .executorProcessCrashed | .processCrashed | .excelProcessCrashed =>
    ⟨.ambiguous, .crash⟩
  | .processTimedOut =>
    ⟨.ambiguous, .timeout⟩
  | .excelWorkbookOpenFailed | .excelCorrelationSetupFailed | .excelMacroFailed =>
    ⟨.ambiguous, .excelInvocation⟩
  | .excelInvalidReturn =>
    ⟨.ambiguous, .excelContract⟩
  | .excelCleanupFailed =>
    ⟨.ambiguous, .cleanup⟩
  | .infrastructureError =>
    ⟨.ambiguous, .infrastructure⟩

def classifyResult (outcome : ExecutionOutcome) (diagnostic : Option FailureDiagnostic) :
    HealthClassification :=
  match outcome, diagnostic with
  | .succeeded, _                              => ⟨.functional, .functional⟩
  | _, some diagnostic                         => classifyFailureCode diagnostic.code
  | .cancelled, none                           => ⟨.ignore, .cancellation⟩
  | .leaseExpired, none                        => ⟨.clusterSensitive, .lease⟩
  | .timedOut, none                            => ⟨.ambiguous, .timeout⟩
  | .failed, none | .infrastructureError, none => ⟨.ambiguous, .infrastructure⟩

inductive InputHealthState
  | clear
  | suspected
  | confirmed
  deriving DecidableEq, Repr

structure InputHealthObservation where
  agentId        : String
  occurredAt     : Time
  classification : HealthClassification
  nodeWasHealthy : Bool
  deriving DecidableEq, Repr

structure InputHealthEvaluation where
  state                : InputHealthState
  family               : Option FailureFamily
  distinctHealthyNodes : Nat
  deriving DecidableEq, Repr

namespace InputHealthObservation

def lastFunctional (observations : List InputHealthObservation) : Option Time :=
  observations.filter (·.classification.class = .functional) |>.map (·.occurredAt) |>.max?

-- The observations that count towards poison: ambiguous failures on healthy nodes after the last
-- functional outcome.
def counts (lastFunctional : Option Time) (o : InputHealthObservation) : Bool :=
  !(lastFunctional.any (o.occurredAt ≤ ·)) && o.nodeWasHealthy &&
    o.classification.class = .ambiguous

-- One entry of the source's `by_family` map: the distinct nodes of a family.
def nodesOf (observations : List InputHealthObservation) (family : FailureFamily) : List String :=
  let last := lastFunctional observations
  observations.filter (fun o => o.counts last && o.classification.family = family)
    |>.map (·.agentId) |>.dedup

end InputHealthObservation

-- `max_by_key(|(family, nodes)| (nodes.len(), family as u8))` over the families that have nodes.
def strongest (nodes : FailureFamily → List String) : List FailureFamily → Option FailureFamily
  | []            => none
  | family :: tl =>
    match strongest nodes tl with
    | none       => if nodes family = [] then none else some family
    | some other => if (nodes other).length < (nodes family).length then some family else some other

def InputHealthEvaluation.ofStrongest (threshold : Nat) (nodes : FailureFamily → List String) :
    Option FailureFamily → InputHealthEvaluation
  | some family =>
    if threshold ≤ (nodes family).length then
      ⟨.confirmed, some family, (nodes family).length⟩
    else
      ⟨.suspected, some family, (nodes family).length⟩
  | none => ⟨.clear, none, 0⟩

open InputHealthObservation in
def evaluateInputHealth (observations : List InputHealthObservation) (requiredDistinctNodes : Nat) :
    InputHealthEvaluation :=
  .ofStrongest (max requiredDistinctNodes 2) (nodesOf observations) <|
    strongest (nodesOf observations) FailureFamily.all

theorem strongest_none {nodes} : ∀ {fs}, strongest nodes fs = none → ∀ f ∈ fs, nodes f = []
  | g :: fs, h, f, hf => by
    simp only [strongest] at h
    split at h
    case h_1 hs =>
      have hg : nodes g = [] := by simpa using h
      cases hf
      case head => exact hg
      case tail hf => exact strongest_none hs f hf
    case h_2 => split at h <;> contradiction

theorem strongest_some {nodes f} :
    ∀ {fs}, strongest nodes fs = some f → ∀ g ∈ fs, (nodes g).length ≤ (nodes f).length
  | b :: fs, h, g, hg => by
    simp only [strongest] at h
    split at h
    case h_1 hs =>
      have ⟨_, hb⟩ : nodes b ≠ [] ∧ b = f := by simpa using h
      cases hg
      case head => rw [hb]
      case tail hg => simp [strongest_none hs g hg]
    case h_2 c hs =>
      have hc := strongest_some hs
      split at h <;> cases h <;> cases hg
      case isTrue.refl.head => rfl
      case isTrue.refl.tail hlt hg => exact hc g hg |>.trans hlt.le
      case isFalse.refl.head hlt => exact not_lt.mp hlt
      case isFalse.refl.tail hg => exact hc g hg

-- An input is confirmed as poison iff enough distinct nodes agree on one failure family.
theorem evaluateInputHealth_confirmed_iff {observations n} :
    (evaluateInputHealth observations n).state = .confirmed ↔
    ∃ f, max n 2 ≤ (InputHealthObservation.nodesOf observations f).length := by
  unfold evaluateInputHealth
  generalize hs : strongest (InputHealthObservation.nodesOf observations) FailureFamily.all = best
  cases best
  case none =>
    have hn f := strongest_none hs f f.mem_all
    simp [InputHealthEvaluation.ofStrongest, hn]
  case some f =>
    have hf g := strongest_some hs g g.mem_all
    simp only [InputHealthEvaluation.ofStrongest]
    split
    case isTrue ht => exact iff_of_true rfl ⟨f, ht⟩
    case isFalse ht => exact iff_of_false nofun fun ⟨g, hg⟩ => ht <| hg.trans <| hf g

inductive NodeHealthDecision
  | healthy
  | suspect
  | autoQuarantine
  deriving DecidableEq, Repr

inductive NodeHealthState
  | healthy
  | suspect
  | autoQuarantined
  | manualQuarantined
  | probation
  deriving DecidableEq, Repr

structure NodeHealthObservation where
  scheduleId        : Uuid
  inputFingerprint  : String
  occurredAt        : Time
  classification    : HealthClassification
  retracted         : Bool
  clusterSuppressed : Bool
  deriving DecidableEq, Repr

structure NodeHealthEvaluation where
  decision               : NodeHealthDecision
  distinctFailedInputs   : Nat
  distinctSchedules      : Nat
  consideredObservations : Nat
  failureRate            : ℚ
  deriving DecidableEq, Repr

-- The order in which a `HashMap` of observations happens to be iterated.
structure HashOrder where
  arrange : List NodeHealthObservation → List NodeHealthObservation
  perm    : ∀ l, (arrange l).Perm l

instance : Inhabited HashOrder where
  default := ⟨id, .refl⟩

namespace NodeHealthObservation

def isUsable (o : NodeHealthObservation) : Bool :=
  !o.retracted && !o.clusterSuppressed

def isScored (cutoff : Time) (o : NodeHealthObservation) : Bool :=
  cutoff ≤ o.occurredAt && o.isUsable &&
    (o.classification.class = .functional || o.classification.class.isFailure)

-- One step of the loop that keeps the latest observation of each input.
def keepLatest : List NodeHealthObservation → NodeHealthObservation → List NodeHealthObservation
  | [], o           => [o]
  | current :: tl, o =>
    if current.inputFingerprint = o.inputFingerprint then
      (if current.occurredAt < o.occurredAt then o else current) :: tl
    else
      current :: keepLatest tl o

def distinctInputs (l : List NodeHealthObservation) : Nat :=
  (l.map (·.inputFingerprint)).dedup.length

def distinctSchedules (l : List NodeHealthObservation) : Nat :=
  (l.map (·.scheduleId)).dedup.length

-- The ten latest observations, at most one per input.
def recent (order : HashOrder) (observations : List NodeHealthObservation) (now : Time) :
    List NodeHealthObservation :=
  observations.filter (·.isScored (now - .minutes 15)) |>.foldl keepLatest [] |> order.arrange
    |>.insertionSort (·.occurredAt ≤ ·.occurredAt) |>.reverse |>.take 10

end NodeHealthObservation

open NodeHealthObservation in
def evaluateNodeHealth (order : HashOrder) (observations : List NodeHealthObservation)
    (now : Time) : NodeHealthEvaluation :=
  let recent := recent order observations now
  let failures := recent.filter (·.classification.class.isFailure)
  let failureRate : ℚ := if recent = [] then 0 else failures.length / recent.length
  let strong := failures.filter fun o =>
    now - .minutes 5 ≤ o.occurredAt && o.classification.class = .strongNodeLocal
  let normalQuarantine :=
    5 ≤ failures.length &&
    (if 2 ≤ distinctSchedules failures then 4 else 6) ≤ distinctInputs failures &&
    3 / 5 ≤ failureRate
  let fastQuarantine := 3 ≤ distinctInputs strong && 2 ≤ distinctSchedules strong
  let decision :=
    if normalQuarantine || fastQuarantine then .autoQuarantine
    else if 3 ≤ failures.length && 3 ≤ distinctInputs failures && 1 / 2 ≤ failureRate then .suspect
    else .healthy
  {
    decision
    distinctFailedInputs   := distinctInputs failures
    distinctSchedules      := distinctSchedules failures
    consideredObservations := recent.length
    failureRate
  }

def applyNodeHealthEvaluation (current : NodeHealthState) (evaluation : NodeHealthEvaluation)
    (observations : List NodeHealthObservation) : NodeHealthState :=
  match current with
  | .manualQuarantined | .autoQuarantined => current
  | .probation =>
    let usable := observations.filter (·.isUsable)
    let functional := usable.filter (·.classification.class = .functional)
    if usable.any (·.classification.class.isFailure) then .autoQuarantined
    else if 5 ≤ functional.length && 3 ≤ NodeHealthObservation.distinctInputs functional then .healthy
    else .probation
  | .healthy | .suspect =>
    match evaluation.decision with
    | .healthy        => .healthy
    | .suspect        => .suspect
    | .autoQuarantine => .autoQuarantined

end Scheduler
