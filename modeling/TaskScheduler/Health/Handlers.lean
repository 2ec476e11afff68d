import TaskScheduler.Health.Evidence
import TaskScheduler.Lifecycle.Results
import TaskScheduler.Ingestion.Holding

namespace Scheduler

structure AttemptHealthContext where
  attemptId         : Uuid
  runId             : Uuid
  scheduleId        : Uuid
  agentId           : String
  encryptedSnapshot : Sealed ExecutionSnapshot
  deriving DecidableEq, Repr

-- The digests that tell inputs apart: SHA-256 of a plaintext, and the keyed one of the cipher.
structure Fingerprints where
  snapshotDigest   : ExecutionSnapshot → String
  inputFingerprint : (blueprintScope parametersDigest : String) → String

-- Runs of old versions carry no digest of their blueprint.
def Fingerprints.blueprintScope (f : Fingerprints) (snapshot : ExecutionSnapshot) : String :=
  if snapshot.blueprintDigest = "" then f.snapshotDigest snapshot else snapshot.blueprintDigest

def ExecutionResult.classification (result : ExecutionResult) : HealthClassification :=
  classifyResult result.outcome result.diagnostic

-- What `record_attempt_result` tells the store, unless the snapshot of the run cannot be read.
def AttemptHealthContext.evidence (context : AttemptHealthContext) (f : Fingerprints)
    (result : ExecutionResult) (nodeWasHealthy : Bool) : Option NewHealthEvidence :=
  context.encryptedSnapshot.map fun snapshot => {
    attemptId         := some context.attemptId
    runId             := context.runId
    scheduleId        := context.scheduleId
    agentId           := context.agentId
    blueprintDigest   := f.blueprintScope snapshot
    inputFingerprint  := f.inputFingerprint (f.blueprintScope snapshot) snapshot.parametersDigest
    classification    := result.classification
    diagnostic        := result.diagnostic
    nodeWasHealthy
    clusterSuppressed := result.classification.class = .clusterSensitive
    occurredAt        := result.finishedAt
  }

section Results

def preacceptanceRejection : String → Option (FailureCode × FailureStage × String)
  | "parameter_binding_failed"   => some (.parameterBindingFailed, .parameterBinding,
      "agent could not resolve or validate a required parameter binding")
  | "assignment_policy_rejected" => some (.assignmentRejected, .validation,
      "agent rejected the assignment under its current execution policy")
  | _                            => none

-- The result that the coordinator stores for an offer that its node rejected.
def preacceptanceRejectionResult (rejectionCode : String) (now : Time) : Option ExecutionResult :=
  (preacceptanceRejection rejectionCode).map fun (code, stage, message) => {
    outcome    := .infrastructureError
    exitCode   := none
    signal     := none
    stdout     := ""
    stderr     := ""
    startedAt  := now
    finishedAt := now
    error      := some message
    output     := {}
    diagnostic := some { code, origin := .agent, stage, summary := message, retryable := true }
  }

-- The result that `expire_leases` stores.
def leaseExpiredResult (now : Time) : ExecutionResult where
  outcome    := .leaseExpired
  exitCode   := none
  signal     := none
  stdout     := ""
  stderr     := ""
  startedAt  := now
  finishedAt := now
  error      := some "agent stopped renewing the execution lease"
  output     := {}
  diagnostic := some {
    code      := .agentLeaseExpired
    origin    := .agent
    stage     := .lease
    summary   := "agent disconnected or stopped renewing the execution lease"
    retryable := true
  }

end Results

namespace Store

variable (s : Store)

def attemptHealthContext (attemptId : Uuid) : Option AttemptHealthContext :=
  (s.attempts.get? attemptId).bind fun a => (s.runs.get? a.runId).map fun r => {
    attemptId         := a.id
    runId             := a.runId
    scheduleId        := r.scheduleId
    agentId           := a.agentId
    encryptedSnapshot := r.encryptedSnapshot
  }

def nodeWasHealthy (agentId : String) : Bool :=
  (s.nodeHealth.get? agentId).all (·.state = .healthy)

theorem attemptHealthContext_attemptId {s : Store} {id : Uuid} {context : AttemptHealthContext}
    (h : s.attemptHealthContext id = some context) : context.attemptId = id := by
  have ⟨a, ha, h⟩ := Option.bind_eq_some_iff.mp h
  have ⟨r, _, h⟩ := Option.map_eq_some_iff.mp h
  subst h
  exact Table.key_of_get? ha

-- The rows that the reconciliation selects: `WHERE a.state='finished' AND a.encrypted_result IS NOT
-- NULL AND h.id IS NULL`.
def needsEvidence (a : Attempt) : Bool :=
  a.state = .finished && a.encryptedResult.isSome && !s.isClassified a.id

end Store

-- The identifiers, random numbers and clock readings that a transaction draws.
structure Draws where
  id     : Uuid
  random : Nat
  order  : HashOrder
  now    : Time

-- A handler between two of its transactions. Results of agents are answered in the end.
inductive Handler
  | finish (context : AttemptHealthContext) (leaseToken : String) (result : ExecutionResult)
  | reject (context : AttemptHealthContext) (leaseToken : String) (result : ExecutionResult)
  | claimed (attempt : Attempt)
  | expire (attempt : Attempt) (context : Option AttemptHealthContext)
  | classify (context : AttemptHealthContext) (result : ExecutionResult) (reply : Bool)
  | weigh (context : AttemptHealthContext) (result : ExecutionResult) (reply nodeWasHealthy : Bool)
  | record (context : AttemptHealthContext) (result : ExecutionResult) (reply nodeWasHealthy : Bool)
      (threshold : Nat)
  | acknowledge (attemptId : Uuid)

-- The coordinator's store, the handlers at work, and the results that were acknowledged to agents,
-- with the state of the attempt at that time.
structure Handlers where
  store    : Store
  handlers : Nat → Option Handler
  sent     : List (Uuid × Option AttemptState)

namespace Handler

-- The next transaction of a handler. One that fails ends the handler.
def step (f : Fingerprints) (s : Store) (d : Draws) : Handler → Store × Option Handler
  | finish context token result =>
    match s.finishAttempt context.attemptId token result (some result) d.random d.now with
    | .error _    => (s, none)
    | .ok (_, s') => (s', some <| .classify context result true)
  | reject context token result =>
    match s.rejectOffer context.attemptId token result (some result) d.now with
    | .error _    => (s, none)
    | .ok (_, s') => (s', some <| .classify context result false)
  | claimed attempt => (s, some <| .expire attempt <| s.attemptHealthContext attempt.id)
  | expire attempt context =>
    let result := leaseExpiredResult d.now
    match s.finishExpiredAttempt attempt.id attempt.leaseToken result (some result) d.random
      d.now with
    | .error _         => (s, none)
    | .ok (none, s')   => (s', none)
    | .ok (some _, s') => (s', context.map (.classify · result false))
  | classify context result reply =>
    if context.encryptedSnapshot.isNone then (s, none)
    else (s, some <| .weigh context result reply <| s.nodeWasHealthy context.agentId)
  | weigh context result reply healthy =>
    (s, some <| .record context result reply healthy <| s.poisonDistinctNodesForRun context.runId)
  | record context result reply healthy threshold =>
    match context.evidence f result healthy with
    | none   => (s, none)
    | some e =>
      match s.recordHealthEvidence e threshold d.id d.order d.now with
      | .error _    => (s, none)
      | .ok (_, s') => (s', if reply then some <| .acknowledge context.attemptId else none)
  | acknowledge _ => (s, none)

variable {f : Fingerprints} {s : Store} {d : Draws}

-- What the next transaction of a handler can do.
inductive Takes (f : Fingerprints) (s : Store) (d : Draws) :
    Handler → Store → Option Handler → Prop
  | ended {h : Handler} : Takes f s d h s none
  | ignored {context : AttemptHealthContext} {token : String} {result : ExecutionResult}
      {a : Attempt} (ha : s.attempts.get? context.attemptId = some a) (ht : a.leaseToken = token)
      (hs : a.state = .expiring ∨ a.state.isConcluded) :
      Takes f s d (finish context token result) s (some <| classify context result true)
  | finished {context : AttemptHealthContext} {token : String} {result : ExecutionResult}
      {a : Attempt} (ha : s.attempts.get? context.attemptId = some a) (ht : a.leaseToken = token)
      (hn : a.state ≠ .expiring) (hx : s.exec (.finishAttempt context.attemptId token result
        (some result) d.random d.now) = s') (hs : s.Settles a result (some result) s') :
      Takes f s d (finish context token result) s' (some <| classify context result true)
  | rejected {context : AttemptHealthContext} {token : String} {result : ExecutionResult}
      {a : Attempt} (ha : s.attempts.get? context.attemptId = some a)
      (hx : s.exec (.rejectOffer context.attemptId token result (some result) d.now) = s')
      (hs : s.Settles a result (some result) s') :
      Takes f s d (reject context token result) s' (some <| classify context result false)
  | selected {attempt : Attempt} : Takes f s d (claimed attempt) s
      (some <| expire attempt <| s.attemptHealthContext attempt.id)
  | expired {attempt : Attempt} {context : Option AttemptHealthContext} {result : ExecutionResult}
      {a : Attempt} (ha : s.attempts.get? attempt.id = some a)
      (hx : s.exec (.finishExpiredAttempt attempt.id attempt.leaseToken result (some result)
        d.random d.now) = s') (hs : s.Settles a result (some result) s') :
      Takes f s d (expire attempt context) s' (context.map (classify · result false))
  | looked {context : AttemptHealthContext} {result : ExecutionResult} {reply : Bool} :
      Takes f s d (classify context result reply) s
        (some <| weigh context result reply <| s.nodeWasHealthy context.agentId)
  | weighed {context : AttemptHealthContext} {result : ExecutionResult} {reply healthy : Bool} :
      Takes f s d (weigh context result reply healthy) s
        (some <| record context result reply healthy <| s.poisonDistinctNodesForRun context.runId)
  | recorded {context : AttemptHealthContext} {result : ExecutionResult} {reply healthy : Bool}
      {threshold : Nat} {e : NewHealthEvidence} {state : InputHealthState}
      (he : context.evidence f result healthy = some e)
      (hr : s.recordHealthEvidence e threshold d.id d.order d.now = .ok (state, s')) :
      Takes f s d (record context result reply healthy threshold) s'
        (if reply then some <| acknowledge context.attemptId else none)

theorem step_takes (h : Handler) : h.Takes f s d (h.step f s d).1 (h.step f s d).2 := by
  cases h
  case finish context token result =>
    simp only [step]
    split
    case h_1 => exact .ended
    case h_2 hf =>
      obtain ⟨a, ha, ht, hs⟩ := Store.finishAttempt_settles hf
      cases hs
      case inl hs =>
        rw [hs.left]
        exact .ignored ha ht hs.right
      case inr hs => exact .finished ha ht hs.left (by simp [Store.exec, hf]) hs.right
  case reject context token result =>
    simp only [step]
    split
    case h_1 => exact .ended
    case h_2 hf =>
      obtain ⟨a, ha, hs⟩ := Store.rejectOffer_settles hf
      exact .rejected ha (by simp [Store.exec, hf]) hs
  case claimed => exact .selected
  case expire attempt context =>
    simp only [step]
    split
    case h_1 => exact .ended
    case h_2 hf => exact Store.finishExpiredAttempt_none hf ▸ .ended
    case h_3 hf =>
      obtain ⟨a, ha, hs⟩ := Store.finishExpiredAttempt_settles hf
      exact .expired ha (by simp [Store.exec, hf]) hs
  case classify =>
    simp only [step]
    split
    case isTrue => exact .ended
    case isFalse => exact .looked
  case weigh => exact .weighed
  case record =>
    simp only [step]
    split
    case h_1 => exact .ended
    case h_2 he =>
      split
      case h_1 => exact .ended
      case h_2 hr => exact .recorded he hr
  case acknowledge => exact .ended

-- The ways in which handlers start.
inductive Begins (s : Store) : Handler → Prop
  | finish {id : Uuid} {context : AttemptHealthContext} {token : String} {result : ExecutionResult}
      (hc : s.attemptHealthContext id = some context) : Begins s (finish context token result)
  | reject {id : Uuid} {context : AttemptHealthContext} {token : String} {result : ExecutionResult}
      (hc : s.attemptHealthContext id = some context) : Begins s (reject context token result)
  | claimed {attempt : Attempt} : Begins s (claimed attempt)
  | classify {id : Uuid} {a : Attempt} {context : AttemptHealthContext} {result : ExecutionResult}
      (ha : s.attempts.get? id = some a) (hn : s.needsEvidence a)
      (hc : s.attemptHealthContext id = some context)
      (hr : a.encryptedResult = some (some result)) :
      Begins s (classify context result false)

-- A handler takes one transaction at a time.
theorem Takes.store {h : Handler} {s' : Store} {next : Option Handler}
    (ht : h.Takes f s d s' next) : s' = s ∨ ∃ op, s.exec op = s' := by
  cases ht
  case finished hx _ | rejected hx _ | expired hx _ => exact .inr ⟨_, hx⟩
  case recorded threshold e _ _ hr =>
    refine .inr ⟨.recordHealthEvidence e threshold d.id d.order d.now, ?_⟩
    simp [Store.exec, hr]
  all_goals exact .inl rfl

end Handler

inductive HandlerEvent
  | store (op : Op)
  | result (k : Nat) (attemptId : Uuid) (leaseToken : String) (result : ExecutionResult)
  | rejected (k : Nat) (attemptId : Uuid) (leaseToken rejectionCode : String) (now : Time)
  | claim (k : Nat) (attemptId : Uuid) (graceSeconds : Nat) (now : Time)
  | reconcile (k : Nat) (attemptId : Uuid)
  | step (k : Nat) (draws : Draws)
  | abort (k : Nat)
  | crash

-- The transactions that belong to handlers.
def Op.isHandled : Op → Bool
  | .rejectOffer .. | .finishAttempt .. | .finishExpiredAttempt .. | .claimExpiredAttempt ..
  | .recordHealthEvidence .. => true
  | _                        => false

namespace Handlers

def initial : Handlers where
  store    := .empty
  handlers := fun _ => none
  sent     := []

variable (st : Handlers)

def set (k : Nat) (h : Option Handler) : Handlers :=
  { st with handlers := Function.update st.handlers k h }

-- What is sent when a handler takes its next step.
def replies : Handler → List (Uuid × Option AttemptState)
  | .acknowledge id => [(id, (st.store.attempts.get? id).map (·.state))]
  | _               => []

def advance (f : Fingerprints) (k : Nat) (d : Draws) : Handlers :=
  match st.handlers k with
  | none   => st
  | some h =>
    let (store, next) := h.step f st.store d
    { store, handlers := Function.update st.handlers k next, sent := st.replies h ++ st.sent }

def exec (f : Fingerprints) : HandlerEvent → Handlers
  | .store op => { st with store := st.store.exec op }
  | .result k id token result =>
    st.set k <| (st.store.attemptHealthContext id).map (.finish · token result)
  | .rejected k id token code now =>
    st.set k <| (preacceptanceRejectionResult code now).bind fun result =>
      (st.store.attemptHealthContext id).map (.reject · token result)
  | .claim k id grace now =>
    match st.store.claimExpiredAttempt id grace now with
    | .error _            => st
    | .ok (attempt, store) => { st.set k <| attempt.map .claimed with store }
  | .reconcile k id =>
    st.set k <| (st.store.attempts.get? id).bind fun a =>
      if st.store.needsEvidence a then
        (st.store.attemptHealthContext id).bind fun context =>
          a.encryptedResult.join.map (.classify context · false)
      else none
  | .step k d => st.advance f k d
  | .abort k => st.set k none
  | .crash => { st with handlers := fun _ => none }

end Handlers

-- The coordinator under messages of agents, background passes, other transactions and crashes, in
-- any order.
def handling (f : Fingerprints) : Machine Handlers HandlerEvent where
  exec st ev := st.exec f ev
  Enabled _ ev :=
    match ev with
    | .store op => op.isHandled = false
    | _         => True

instance {f : Fingerprints} {st : Handlers} {ev : HandlerEvent} :
    Decidable ((handling f).Enabled st ev) :=
  match ev with
  | .store op => inferInstanceAs (Decidable (op.isHandled = false))
  | .result .. | .rejected .. | .claim .. | .reconcile .. | .step .. | .abort _ | .crash =>
    .isTrue trivial

namespace Handlers

variable {f : Fingerprints} {st : Handlers} {ev : HandlerEvent}

theorem exec_store : (st.exec f ev).store = st.store ∨
    ∃ op, st.store.exec op = (st.exec f ev).store := by
  cases ev
  case store op => exact .inr ⟨op, rfl⟩
  case claim k id grace now =>
    refine .inr ⟨.claimExpiredAttempt id grace now, ?_⟩
    cases h : st.store.claimExpiredAttempt id grace now <;>
      simp [exec, Store.exec, Transaction.persisted, h]
  case step k d =>
    simp only [exec, advance]
    split
    case h_1 => exact .inl rfl
    case h_2 h _ => exact h.step_takes.store
  all_goals exact .inl rfl

theorem store_reachable (h : (handling f).Reachable .initial st) : st.store.Reachable := by
  apply h.invariant (I := (·.store.Reachable)) (fun st ev hs _ => ?_) .refl
  have h : (st.exec f ev).store = st.store ∨ _ := exec_store
  cases h
  case inl h => exact h ▸ hs
  case inr h =>
    have ⟨op, h⟩ := h
    exact h ▸ hs.exec op

section Invariants

variable {I : Store → Prop} {P Q : Store → Handler → Prop}

-- A property of the store together with one of the handlers at work.
structure Holds (I : Store → Prop) (P : Store → Handler → Prop) (st : Handlers) : Prop where
  store    : I st.store
  handlers : ∀ k h, st.handlers k = some h → P st.store h

namespace Holds

theorem set {k : Nat} {next : Option Handler} (h : st.Holds I P)
    (hn : ∀ x ∈ next, P st.store x) : (st.set k next).Holds I P where
  store    := h.store
  handlers := by
    intro j x hx
    simp only [Handlers.set, Function.update_apply] at hx
    split at hx
    case isTrue => exact hn x hx
    case isFalse => exact h.handlers j x hx

theorem store_of {s : Store} (h : st.Holds I P) (hs : I s)
    (stable : ∀ x, P st.store x → P s x) : { st with store := s }.Holds I P where
  store    := hs
  handlers := fun k x hx => stable x <| h.handlers k x hx

-- What transactions of others and the handlers themselves preserve is preserved by every event,
-- where `Q` is a condition on the steps of handlers.
theorem exec (h : st.Holds I P) (he : (handling f).Enabled st ev)
    (hq : ∀ k d, ev = .step k d → ∀ x ∈ st.handlers k, Q st.store x)
    (others : ∀ s op, I s → op.resultOf = none → op.isEvidence = false → I (s.exec op))
    (stable : ∀ s op x, P s x → P (s.exec op) x)
    (begins : ∀ s x, I s → x.Begins s → P s x)
    (takes : ∀ s d x s' next, I s → P s x → Q s x → x.Takes f s d s' next →
      I s' ∧ ∀ y ∈ next, P s' y) :
    (st.exec f ev).Holds I P := by
  cases ev
  case store op =>
    apply h.store_of (others _ _ h.store ?_ ?_) fun x => stable _ op x
    all_goals cases op <;> first | rfl | cases he
  case result k id token result =>
    apply h.set
    intro x hx
    obtain ⟨context, hc, hx⟩ := Option.map_eq_some_iff.mp hx
    exact begins _ _ h.store <| hx ▸ .finish hc
  case rejected k id token code now =>
    apply h.set
    intro x hx
    obtain ⟨result, _, hx⟩ := Option.bind_eq_some_iff.mp hx
    obtain ⟨context, hc, hx⟩ := Option.map_eq_some_iff.mp hx
    exact begins _ _ h.store <| hx ▸ .reject hc
  case claim k id grace now =>
    have hi := others _ (.claimExpiredAttempt id grace now) h.store rfl rfl
    have hs x := stable st.store (.claimExpiredAttempt id grace now) x
    simp only [Store.exec] at hi hs
    simp only [Handlers.exec]
    split
    case h_1 => exact h
    case h_2 hc =>
      rw [hc] at hi hs
      apply (h.store_of hi hs).set
      intro x hx
      obtain ⟨a, _, hx⟩ := Option.map_eq_some_iff.mp hx
      exact begins _ _ hi <| hx ▸ .claimed
  case reconcile k id =>
    apply h.set
    intro x hx
    obtain ⟨a, ha, hx⟩ := Option.bind_eq_some_iff.mp hx
    split at hx
    case isFalse => contradiction
    case isTrue hn =>
      obtain ⟨context, hc, hx⟩ := Option.bind_eq_some_iff.mp hx
      obtain ⟨result, hr, hx⟩ := Option.map_eq_some_iff.mp hx
      exact begins _ _ h.store <| hx ▸ .classify ha hn hc (Option.join_eq_some_iff.mp hr)
  case step k d =>
    simp only [Handlers.exec, advance]
    split
    case h_1 => exact h
    case h_2 x hx =>
      have ht := x.step_takes (f := f) (s := st.store) (d := d)
      generalize x.step f st.store d = r at ht
      obtain ⟨s', next⟩ := r
      have ht : x.Takes f st.store d s' next := ht
      obtain ⟨hi, hn⟩ := takes _ _ _ _ _ h.store (h.handlers k x hx) (hq k d rfl x hx) ht
      have hs y (hy : P st.store y) : P s' y := by
        cases ht.store
        case inl he => exact he ▸ hy
        case inr he =>
          obtain ⟨op, he⟩ := he
          exact he ▸ stable _ op y hy
      have h' := (h.store_of hi hs).set (k := k) hn
      exact ⟨h'.store, h'.handlers⟩
  case abort => exact h.set (by simp)
  case crash => exact ⟨h.store, by simp [Handlers.exec]⟩

end Holds

end Invariants

end Handlers

end Scheduler
