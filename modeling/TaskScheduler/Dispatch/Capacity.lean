import TaskScheduler.Settings.Registry
import TaskScheduler.Coordinator.Refinement
import TaskScheduler.Dispatch.Cap
import TaskScheduler.Dispatch.Pass

namespace Scheduler

-- The first message of a stream.
structure AgentHello where
  agentId             : String
  running             : Nat
  environmentBindings : List String
  secretFileBindings  : List String
  deriving DecidableEq, Repr

structure SessionPlacement where
  enabled  : Bool
  labels   : List (String × String)
  capacity : Nat
  revision : Int
  deriving DecidableEq, Repr

-- If it is not known which settings the node has applied, nothing is placed on it until it acknowledges
-- the current ones.
def reconnectPlacement (desired : NodeSettings) (appliedRevision : Int)
    (previous : Option AgentSession) : SessionPlacement :=
  match previous.filter (·.appliedSettingsRevision = appliedRevision) with
  | some previous => ⟨previous.enabled, previous.labels, previous.capacity, appliedRevision⟩
  | none          =>
    if appliedRevision = desired.revision then
      ⟨desired.enabled, desired.labels, desired.maxParallel, appliedRevision⟩
    else
      ⟨false, [], 0, appliedRevision⟩

namespace AgentSession

def applySettingsAck (session : AgentSession) (outcome : SettingsAckOutcome) : AgentSession :=
  if outcome.status ≠ .applied then
    session
  else
    match outcome.appliedSettings with
    | none          => session
    | some settings => { session with
        enabled                 := settings.enabled
        labels                  := settings.labels
        capacity                := settings.maxParallel
        appliedSettingsRevision := settings.revision
      }

theorem limit_le_capacity (session : AgentSession) : session.limit ≤ session.capacity := by
  unfold limit
  cases session.health.capacityLimit
  case none => exact le_rfl
  case some => exact min_le_left ..

theorem limit_le_one (session : AgentSession) (h : session.health = .probation) : session.limit ≤ 1 := by
  simp [limit, h, NodeHealthState.capacityLimit]

theorem agentId_applySettingsAck {session : AgentSession} {outcome : SettingsAckOutcome} :
    (session.applySettingsAck outcome).agentId = session.agentId := by
  unfold applySettingsAck
  repeat' split
  all_goals rfl

theorem running_applySettingsAck {session : AgentSession} {outcome : SettingsAckOutcome} :
    (session.applySettingsAck outcome).running = session.running := by
  unfold applySettingsAck
  repeat' split
  all_goals rfl

-- The session of a stream that is being opened.
def connect (hello : AgentHello) (connectionId : Uuid) (placement : SessionPlacement)
    (health : NodeHealthState) (now : Time) : AgentSession where
  agentId                 := hello.agentId
  connectionId
  isOpen                  := true
  enabled                 := placement.enabled
  labels                  := placement.labels
  capacity                := placement.capacity
  appliedSettingsRevision := placement.revision
  running                 := hello.running
  health
  lastAssigned            := now
  environmentBindings     := hello.environmentBindings
  secretFileBindings      := hello.secretFileBindings

-- `connection` is the stream that a message came from, or none if any stream of the node will do.
def isCurrent (session : AgentSession) (agentId : String) (connection : Option Uuid) : Bool :=
  session.agentId = agentId && connection.all (· = session.connectionId)

end AgentSession

namespace Store

variable {s s' : Store} {op : Op} {agentId token : String} {runId id : Uuid} {lease : Nat} {now : Time}
variable {a : Attempt}

-- The attempts that a node was offered or has accepted.
def outstanding (s : Store) (agentId : String) : Nat :=
  s.attempts.rows.countP fun a => a.agentId = agentId && a.state.isLeased

-- Nothing but an offer makes an attempt outstanding.
theorem outstanding_exec_le (s : Store) (ho : op.offers = none) (agentId : String) :
    (s.exec op).outstanding agentId ≤ s.outstanding agentId := by
  have of_update {t : Table Attempt} {p : Attempt → Bool} {f : Attempt → Attempt}
      (ht : t.rows = s.attempts.rows.map fun a => if p a then f a else a)
      (h : ∀ a ∈ s.attempts, p a → (f a).agentId = a.agentId ∧ ((f a).state.isLeased → a.state.isLeased)) :
      t.rows.countP (fun a => a.agentId = agentId && a.state.isLeased) ≤ s.outstanding agentId := by
    rw [ht, List.countP_map]
    refine List.countP_mono_left fun a ha hx => ?_
    by_cases hp : p a
    case neg => simpa [hp] using hx
    case pos =>
      have ⟨h₁, h₂⟩ := h a ha hp
      simp only [Function.comp_apply, hp, if_true, h₁, Bool.and_eq_true, decide_eq_true_eq] at hx ⊢
      exact ⟨hx.left, h₂ hx.right⟩
  have hs := s.exec_step op
  simp only [outstanding, ← core_attempts]
  generalize (s.exec op).core = c, s.observe op = entries at hs
  cases hs
  case offer => contradiction
  case release | reject =>
    rw [Core.sync_attempts]
    exact of_update rfl fun _ _ _ => ⟨rfl, nofun⟩
  case accept ha hs _ hc =>
    rw [hc]
    refine of_update rfl fun b hb hp => ⟨rfl, fun _ => ?_⟩
    have hk := Table.key_injOn hb (Table.mem_of_get? ha) <|
      (of_decide_eq_true hp).trans (Table.key_of_get? ha).symm
    exact hk ▸ hs
  case renew => exact of_update rfl fun _ _ _ => ⟨rfl, fun h => h⟩
  case expire => exact of_update rfl fun _ _ _ => ⟨rfl, nofun⟩
  case finish hc | finishExpired hc =>
    cases hc
    case late => exact of_update rfl fun _ _ _ => ⟨rfl, nofun⟩
    case applied =>
      rw [Core.sync_attempts]
      exact of_update rfl fun _ _ _ => ⟨rfl, nofun⟩
  case cancelRun | retryRun =>
    rw [Core.sync_attempts]
    exact le_rfl
  case finalize hm _ =>
    simp only [Core.closeIngestion, hm.attempts]
    exact le_rfl
  all_goals exact le_rfl

theorem outstanding_of_offer (h : s.createAttempt runId agentId lease id token now = .ok (some a, s'))
    (node : String) : s'.outstanding node = s.outstanding node + if agentId = node then 1 else 0 := by
  have ⟨_, attempts, _, _, hn, hi, hc⟩ := createAttempt_some_core h
  have ha : s'.attempts = attempts := (congrArg Core.attempts hc).trans Core.sync_attempts
  have hx : a.agentId = agentId ∧ a.state = .offered := hn ▸ ⟨rfl, rfl⟩
  simp [outstanding, ha, Table.rows_of_insert hi, List.countP_append, hx, AttemptState.isLeased]

end Store

theorem AppState.mem_of_reserve {L : Type} [LinearOrder L] {load : Nat → Nat → L} {σ σ₁ : AppState}
    {req : Requirements} {excluded : List String} {now : Time} {session : AgentSession}
    (h : σ.reserveAgentAvoiding load req excluded now = some (session, σ₁)) :
    session ∈ σ.sessions ∧ session.isEligible req excluded ∧ σ₁ = { σ with
      sessions := σ.sessions.update (·.agentId = session.agentId) fun s =>
        { s with running := s.running + 1, lastAssigned := now }
    } := by
  simp only [reserveAgentAvoiding, Option.map_eq_some_iff] at h
  obtain ⟨_, hs, ⟨⟩⟩ := h
  have hm := Table.mem_select.mp <| Ranking.mem_of_least hs
  exact ⟨hm.left, hm.right, rfl⟩

-- A slot that has to be given back, of the given stream only if there is one.
structure Release where
  agentId    : String
  connection : Option Uuid
  deriving DecidableEq, Repr

-- The coordinator between two steps of its tasks: the slot that the dispatcher has reserved, and the slots
-- that are to be given back.
structure Fleet extends AppState where
  reserved : Option String
  owed     : List Release

namespace Fleet

def initial : Fleet where
  store    := .empty
  sessions := ∅
  reserved := none
  owed     := []

inductive Act
  | store (op : Op)
  | connect (hello : AgentHello) (connectionId : Uuid) (registration : AgentRegistration)
      (health : NodeHealthState) (now : Time)
  | disconnect (agentId : String) (connectionId : Uuid)
  | heartbeat (agentId : String) (connectionId : Uuid) (running : Nat)
  | settingsApplied (agentId : String) (connectionId : Uuid) (outcome : SettingsAckOutcome)
  | health (agentId : String) (health : NodeHealthState)
  | reserve (req : Requirements) (excluded : List String) (now : Time)
  | offer (runId : Uuid) (leaseSeconds : Nat) (id : Uuid) (leaseToken : String) (now : Time)
  | streamClosed (attemptId : Uuid)
  | rejected (agentId : String) (connectionId attemptId : Uuid) (leaseToken : String)
      (result : ExecutionResult) (encrypted : Sealed ExecutionResult) (now : Time)
  | result (agentId : String) (connectionId attemptId : Uuid) (leaseToken : String)
      (result : ExecutionResult) (encrypted : Sealed ExecutionResult) (random : Nat) (now : Time)
  | expired (attemptId : Uuid) (leaseToken : String) (result : ExecutionResult)
      (encrypted : Sealed ExecutionResult) (random : Nat) (now : Time)
  | release (release : Release)

-- The transactions that the other actions are made of.
def isOther : Op → Bool
  | .createAttempt .. | .releaseOffer .. | .rejectOffer .. | .finishAttempt ..
  | .finishExpiredAttempt .. => false
  | _                        => true

-- The session that a stream is given. The settings come from the registry, the health from the store.
def opened (σ : Fleet) (hello : AgentHello) (connectionId : Uuid) (registration : AgentRegistration)
    (health : NodeHealthState) (now : Time) : AgentSession :=
  let placement := reconnectPlacement registration.desiredSettings
    registration.appliedSettingsRevision (σ.sessions.get? hello.agentId)
  .connect hello connectionId placement health now

variable {L : Type} [LinearOrder L] (load : Nat → Nat → L)

def exec (σ : Fleet) : Act → Fleet
  | .store op => { σ with store := σ.store.exec op }
  | .connect hello connectionId registration health now =>
    let session := σ.opened hello connectionId registration health now
    { σ with
      sessions := σ.sessions.upsert session fun s => { session with agentId := s.agentId }
    }
  | .disconnect agentId connectionId =>
    { σ with sessions := σ.sessions.delete (·.isCurrent agentId (some connectionId)) }
  | .heartbeat agentId connectionId running =>
    { σ with
      sessions := σ.sessions.update (·.isCurrent agentId (some connectionId)) ({ · with running })
    }
  | .settingsApplied agentId connectionId outcome =>
    { σ with
      sessions := σ.sessions.update (·.isCurrent agentId (some connectionId))
        (·.applySettingsAck outcome) fun _ => AgentSession.agentId_applySettingsAck
    }
  | .health agentId health =>
    { σ with sessions := σ.sessions.update (·.isCurrent agentId none) ({ · with health }) }
  | .reserve req excluded now =>
    match σ.reserveAgentAvoiding load req excluded now with
    | none               => σ
    | some (session, σ₁) => { σ with sessions := σ₁.sessions, reserved := some session.agentId }
  | .offer runId leaseSeconds id leaseToken now =>
    match σ.reserved with
    | none         => σ
    | some agentId =>
      match σ.store.createAttempt runId agentId leaseSeconds id leaseToken now with
      | .error _         => { σ with reserved := none }
      | .ok (none, _)    => { σ with reserved := none, owed := ⟨agentId, none⟩ :: σ.owed }
      | .ok (some _, s₁) => { σ with store := s₁, reserved := none }
  | .streamClosed attemptId =>
    { σ with
      store := σ.store.exec (.releaseOffer attemptId)
      owed  := (σ.store.attempts.get? attemptId).toList.map (⟨·.agentId, none⟩) ++ σ.owed
    }
  | .rejected agentId connectionId attemptId leaseToken result encrypted now =>
    match σ.store.rejectOffer attemptId leaseToken result encrypted now with
    | .error _    => σ
    | .ok (_, s₁) => { σ with store := s₁, owed := ⟨agentId, some connectionId⟩ :: σ.owed }
  | .result agentId connectionId attemptId leaseToken result encrypted random now =>
    match σ.store.finishAttempt attemptId leaseToken result encrypted random now with
    | .error _    => σ
    | .ok (_, s₁) => { σ with store := s₁, owed := ⟨agentId, some connectionId⟩ :: σ.owed }
  | .expired attemptId leaseToken result encrypted random now =>
    match σ.store.finishExpiredAttempt attemptId leaseToken result encrypted random now with
    | .ok (some _, s₁) => { σ with
        store := s₁
        owed  := (σ.store.attempts.get? attemptId).toList.map (⟨·.agentId, none⟩) ++ σ.owed
      }
    | _                => σ
  | .release r =>
    { σ with
      sessions := σ.sessions.update (·.isCurrent r.agentId r.connection)
        (fun s => { s with running := s.running - 1 }) AgentSession.keeps_release
      owed     := σ.owed.erase r
    }

-- There is one dispatcher, which handles one run after the other. Messages of replaced streams are not
-- handled.
def Enabled (σ : Fleet) : Act → Prop
  | .store op                         => isOther op
  | .reserve ..                       => σ.reserved = none
  | .heartbeat agentId connectionId _
  | .settingsApplied agentId connectionId _
  | .rejected agentId connectionId ..
  | .result agentId connectionId ..   => ∃ s ∈ σ.sessions, s.isCurrent agentId (some connectionId)
  | .release r                        => r ∈ σ.owed
  | _                                 => True

instance {σ : Fleet} : ∀ act, Decidable (σ.Enabled act)
  | .store op => inferInstanceAs (Decidable (isOther op))
  | .reserve .. => inferInstanceAs (Decidable (σ.reserved = none))
  | .heartbeat agentId connectionId _
  | .settingsApplied agentId connectionId _
  | .rejected agentId connectionId ..
  | .result agentId connectionId .. =>
    inferInstanceAs (Decidable (∃ s ∈ σ.sessions, s.isCurrent agentId (some connectionId)))
  | .release r => inferInstanceAs (Decidable (r ∈ σ.owed))
  | .connect .. | .disconnect .. | .health .. | .offer .. | .streamClosed .. | .expired .. =>
    inferInstanceAs (Decidable True)

end Fleet

def fleet {L : Type} [LinearOrder L] (load : Nat → Nat → L) : Machine Fleet Fleet.Act where
  exec    := Fleet.exec load
  Enabled := Fleet.Enabled

instance {L : Type} [LinearOrder L] {load : Nat → Nat → L} {σ : Fleet} {act : Fleet.Act} :
    Decidable ((fleet load).Enabled σ act) :=
  inferInstanceAs (Decidable (σ.Enabled act))

namespace Fleet

-- The attempts of a node that are outstanding or about to be offered to it.
def committed (σ : Fleet) (agentId : String) : Nat :=
  σ.store.outstanding agentId + if σ.reserved = some agentId then 1 else 0

-- A node that an attempt is about to be offered to keeps a limit that leaves room for it.
def Roomy (σ : Fleet) (session : AgentSession) : Prop :=
  σ.reserved = some session.agentId → σ.store.outstanding session.agentId < session.limit

-- What a node reports covers its attempts, a slot that is given back is not in use any more, and the limit
-- of a node is not lowered under an offer that is being made.
def Keeps (σ : Fleet) : Act → Prop
  | .connect hello connectionId registration health now =>
    σ.committed hello.agentId ≤ hello.running ∧
      σ.Roomy (σ.opened hello connectionId registration health now)
  | .heartbeat agentId _ running => σ.committed agentId ≤ running
  | .settingsApplied agentId connectionId outcome =>
    ∀ s ∈ σ.sessions, s.isCurrent agentId (some connectionId) → σ.Roomy (s.applySettingsAck outcome)
  | .health agentId health =>
    ∀ s ∈ σ.sessions, s.isCurrent agentId none → σ.Roomy { s with health }
  | .release r =>
    ∀ s ∈ σ.sessions, s.isCurrent r.agentId r.connection → σ.committed r.agentId ≤ s.running - 1
  | _ => True

instance {σ : Fleet} {session : AgentSession} : Decidable (σ.Roomy session) :=
  inferInstanceAs (Decidable (_ → _))

instance {σ : Fleet} : ∀ act, Decidable (σ.Keeps act)
  | .connect hello connectionId registration health now =>
    inferInstanceAs (Decidable (σ.committed hello.agentId ≤ hello.running ∧
      σ.Roomy (σ.opened hello connectionId registration health now)))
  | .heartbeat agentId _ running => inferInstanceAs (Decidable (σ.committed agentId ≤ running))
  | .settingsApplied agentId connectionId outcome => inferInstanceAs (Decidable
      (∀ s ∈ σ.sessions, s.isCurrent agentId (some connectionId) → σ.Roomy (s.applySettingsAck outcome)))
  | .health agentId health => inferInstanceAs (Decidable
      (∀ s ∈ σ.sessions, s.isCurrent agentId none → σ.Roomy { s with health }))
  | .release r => inferInstanceAs (Decidable
      (∀ s ∈ σ.sessions, s.isCurrent r.agentId r.connection → σ.committed r.agentId ≤ s.running - 1))
  | .store _ | .disconnect .. | .reserve .. | .offer .. | .streamClosed .. | .rejected .. | .result ..
  | .expired .. => inferInstanceAs (Decidable True)

-- No session counts less than what its node is committed to.
structure Counted (σ : Fleet) : Prop where
  running : ∀ s ∈ σ.sessions, σ.committed s.agentId ≤ s.running
  roomy   : ∀ s ∈ σ.sessions, σ.Roomy s

namespace Counted

variable {L : Type} [LinearOrder L] {load : Nat → Nat → L} {σ σ' : Fleet} {act : Act}

theorem initial : Counted .initial :=
  ⟨nofun, nofun⟩

-- An action that does not touch the sessions, and at most ends attempts or gives up a reservation.
theorem of_store (h : σ.Counted) (hs : σ'.sessions = σ.sessions)
    (hr : ∀ a, σ'.reserved = some a → σ.reserved = some a)
    (ho : ∀ a, σ'.store.outstanding a ≤ σ.store.outstanding a) : σ'.Counted where
  running s hm := by
    refine le_trans (Nat.add_le_add (ho _) ?_) (h.running s <| hs ▸ hm)
    by_cases hx : σ'.reserved = some s.agentId
    case pos => simp [hx, hr _ hx]
    case neg => simp [hx]
  roomy s hm hx := (ho _).trans_lt <| h.roomy s (hs ▸ hm) (hr _ hx)

-- An action that changes some sessions.
theorem of_sessions (h : σ.Counted) (hs : σ'.store = σ.store) (hr : σ'.reserved = σ.reserved)
    (hx : ∀ s ∈ σ'.sessions, s ∈ σ.sessions ∨ σ.committed s.agentId ≤ s.running ∧ σ.Roomy s) :
    σ'.Counted where
  running s hm := by
    have hc : σ'.committed s.agentId = σ.committed s.agentId := by simp only [committed, hs, hr]
    rw [hc]
    exact (hx s hm).elim (h.running s) (·.left)
  roomy s hm := by
    have hc : σ'.Roomy s = σ.Roomy s := by simp only [Roomy, hs, hr]
    rw [hc]
    exact (hx s hm).elim (h.roomy s) (·.right)

theorem of_update {p : AgentSession → Bool} {f : AgentSession → AgentSession} (h : σ.Counted)
    (hs : σ'.store = σ.store) (hr : σ'.reserved = σ.reserved)
    (ht : σ'.sessions.rows = σ.sessions.rows.map fun s => if p s then f s else s)
    (hx : ∀ s ∈ σ.sessions, p s → σ.committed (f s).agentId ≤ (f s).running ∧ σ.Roomy (f s)) :
    σ'.Counted := by
  refine h.of_sessions hs hr fun s hm => ?_
  rw [← Table.mem_rows, ht] at hm
  obtain ⟨s, hs, rfl⟩ := List.mem_map.mp hm
  split
  case isTrue hp => exact .inr <| hx s hs hp
  case isFalse => exact .inl hs

-- A session whose free slot is taken still has room for the attempt itself.
theorem reserve {req : Requirements} {excluded : List String} {now : Time} {session : AgentSession}
    {σ₁ : AppState} (h : σ.Counted) (hn : σ.reserved = none)
    (hs : σ.reserveAgentAvoiding load req excluded now = some (session, σ₁)) :
    Counted { σ with sessions := σ₁.sessions, reserved := some session.agentId } := by
  have ⟨hm, he, hx⟩ := AppState.mem_of_reserve hs
  have hc (a : String) : σ.committed a = σ.store.outstanding a := by simp [committed, hn]
  have hl : σ.store.outstanding session.agentId < session.limit := by
    have hr := h.running session hm
    simp only [AgentSession.isEligible, Bool.and_eq_true, decide_eq_true_eq] at he
    rw [hc] at hr
    exact hr.trans_lt he.right
  subst hx
  constructor <;> refine List.forall_mem_map.mpr fun s hs => ?_
  case running =>
    have hr := h.running s hs
    rw [hc] at hr
    by_cases ha : s.agentId = session.agentId
    case pos => simpa [committed, ha] using ha ▸ hr
    case neg => simpa [committed, ha, Ne.symm ha] using hr
  case roomy =>
    by_cases ha : s.agentId = session.agentId
    case neg => simp [Roomy, ha, Ne.symm ha]
    case pos =>
      obtain rfl : s = session := Table.key_injOn hs hm ha
      rw [if_pos <| decide_eq_true rfl]
      exact fun _ => hl

theorem exec (h : σ.Counted) (he : σ.Enabled act) (hk : σ.Keeps act) :
    (σ.exec load act).Counted := by
  cases act
  case store op =>
    have ho : op.offers = none := by
      cases op
      case createAttempt => contradiction
      all_goals rfl
    exact h.of_store rfl (fun _ h => h) (σ.store.outstanding_exec_le ho)
  case connect hello connectionId registration health now =>
    refine h.of_sessions rfl rfl fun s hm => ?_
    obtain ⟨hm, _⟩ | rfl | ⟨s, _, ha, rfl⟩ := Table.mem_of_upsert hm
    case inl => exact .inl hm
    case inr.inl => exact .inr hk
    case inr.inr =>
      have ha : s.agentId = hello.agentId := ha
      exact .inr <| ha ▸ hk
  case disconnect =>
    refine h.of_sessions rfl rfl fun s hm => .inl ?_
    exact List.mem_of_mem_filter hm
  case heartbeat agentId connectionId running =>
    refine h.of_update rfl rfl rfl fun s hm hp => ⟨?_, h.roomy s hm⟩
    simp only [AgentSession.isCurrent, Bool.and_eq_true, decide_eq_true_eq] at hp
    exact hp.left ▸ hk
  case settingsApplied agentId connectionId outcome =>
    refine h.of_update rfl rfl rfl fun s hm hp => ⟨?_, hk s hm hp⟩
    rw [AgentSession.agentId_applySettingsAck, AgentSession.running_applySettingsAck]
    exact h.running s hm
  case health => exact h.of_update rfl rfl rfl fun s hm hp => ⟨h.running s hm, hk s hm hp⟩
  case reserve =>
    simp only [Fleet.exec]
    split
    case h_1 => exact h
    case h_2 hs => exact h.reserve he hs
  case offer runId leaseSeconds id leaseToken now =>
    simp only [Fleet.exec]
    split
    case h_1 => exact h
    case h_2 agentId hr =>
      split
      case h_1 => exact h.of_store rfl nofun fun _ => le_rfl
      case h_2 => exact h.of_store rfl nofun fun _ => le_rfl
      case h_3 a s₁ hc =>
        refine ⟨fun s hm => ?_, nofun⟩
        have hx := h.running s hm
        simpa [committed, hr, Store.outstanding_of_offer hc] using hx
  case streamClosed =>
    exact h.of_store rfl (fun _ h => h) (σ.store.outstanding_exec_le rfl)
  case rejected agentId connectionId attemptId token result encrypted now =>
    simp only [Fleet.exec]
    split
    case h_1 => exact h
    case h_2 s₁ hc =>
      have hx : σ.store.exec (.rejectOffer attemptId token result encrypted now) = s₁ := by
        rw [Store.exec, hc]
        rfl
      exact h.of_store rfl (fun _ h => h) (hx ▸ σ.store.outstanding_exec_le rfl)
  case result agentId connectionId attemptId token result encrypted random now =>
    simp only [Fleet.exec]
    split
    case h_1 => exact h
    case h_2 s₁ hc =>
      have hx : σ.store.exec (.finishAttempt attemptId token result encrypted random now) = s₁ := by
        rw [Store.exec, hc]
        rfl
      exact h.of_store rfl (fun _ h => h) (hx ▸ σ.store.outstanding_exec_le rfl)
  case expired attemptId token result encrypted random now =>
    simp only [Fleet.exec]
    split
    case h_1 s₁ hc =>
      have hx : σ.store.exec (.finishExpiredAttempt attemptId token result encrypted random now) = s₁ := by
        rw [Store.exec, hc]
        rfl
      exact h.of_store rfl (fun _ h => h) (hx ▸ σ.store.outstanding_exec_le rfl)
    case h_2 => exact h
  case release r =>
    refine h.of_update rfl rfl rfl fun s hm hp => ⟨?_, h.roomy s hm⟩
    have hx := hk s hm hp
    simp only [AgentSession.isCurrent, Bool.and_eq_true, decide_eq_true_eq] at hp
    exact hp.left ▸ hx

end Counted

variable {L : Type} [LinearOrder L] {load : Nat → Nat → L} {σ : Fleet}

-- The node has no more attempts than its session has slots, and only one while it is on probation.
def WithinCapacity (σ : Fleet) (agentId : String) : Prop :=
  ∀ s ∈ σ.sessions, s.agentId = agentId → σ.store.outstanding agentId ≤ s.capacity ∧
    (s.health = .probation → σ.store.outstanding agentId ≤ 1)

theorem offer_within_capacity {agentId : String} {runId id : Uuid} {lease : Nat} {token : String} {now : Time}
    {a : Attempt} {s' : Store} (h : ((fleet load).restrict Keeps).Reachable .initial σ)
    (hr : σ.reserved = some agentId)
    (ho : σ.store.createAttempt runId agentId lease id token now = .ok (some a, s')) :
    ((fleet load).exec σ (.offer runId lease id token now)).WithinCapacity agentId := by
  have hc : σ.Counted := Machine.Reachable.invariant (M := (fleet load).restrict Keeps)
    (fun _ _ hc ha => hc.exec ha.left ha.right) h .initial
  have hx : (fleet load).exec σ (.offer runId lease id token now) = { σ with store := s', reserved := none } := by
    simp only [fleet, exec, hr, ho]
  rw [hx]
  intro s hm hs
  have hl : s'.outstanding agentId ≤ s.limit := by
    rw [Store.outstanding_of_offer ho, if_pos rfl]
    exact hs ▸ hc.roomy s hm (hs ▸ hr)
  exact ⟨hl.trans s.limit_le_capacity, fun hp => hl.trans (s.limit_le_one hp)⟩

end Fleet

namespace Sample

def hello : AgentHello where
  agentId             := "agent"
  running             := 0
  environmentBindings := []
  secretFileBindings  := []

def registration : AgentRegistration where
  desiredSettings         := { maxParallel := 1 }
  appliedSettingsRevision := 1

-- A node with one slot and two runs to choose from, the first of which is offered to it.
def placed : List Fleet.Act := [
    .store (.createSchedule schedule 0),
    .store (.createRun Sample.run 1 0),
    .store (.createRun { Sample.run with id := 11 } 2 0),
    .connect hello 1 registration .healthy 0,
    .reserve ⟨[], []⟩ [] 0,
    .offer 10 30 20 "token" 0
  ]

-- The node sent a heartbeat before the assignment reached it, which is handled after the offer.
def staleReport : List Fleet.Act :=
  placed ++ [.heartbeat "agent" 1 0, .reserve ⟨[], []⟩ [] 0]

end Sample

namespace Fleet

open Sample

def byRunning (running _ : Nat) : Nat :=
  running

theorem offer_within_capacity_placed :
    (((fleet byRunning).run .initial (placed.take 5)).exec byRunning (.offer 10 30 20 "token" 0)).WithinCapacity
      "agent" := by
  have ⟨a, s', ho⟩ : ∃ a s', ((fleet byRunning).run .initial (placed.take 5)).store.createAttempt 10 "agent"
      30 20 "token" 0 = .ok (some a, s') := ⟨_, _, rfl⟩
  exact offer_within_capacity ⟨placed.take 5, by decide, rfl⟩ rfl ho

theorem stale_heartbeat_overbooks : ∃ σ, (fleet byRunning).Reachable .initial σ ∧
    (fleet byRunning).Enabled σ (.offer 11 30 21 "token" 0) ∧
    ∃ s ∈ ((fleet byRunning).exec σ (.offer 11 30 21 "token" 0)).sessions, s.capacity = 1 ∧
      ((fleet byRunning).exec σ (.offer 11 30 21 "token" 0)).store.outstanding s.agentId = 2 :=
  ⟨(fleet byRunning).run .initial staleReport, ⟨staleReport, by decide, rfl⟩, trivial, by decide⟩

end Fleet

end Scheduler
