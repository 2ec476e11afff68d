import TaskScheduler.Settings.Node
import TaskScheduler.Dispatch.Capacity

namespace Scheduler

-- What a node may send after its hello. The messages that are not about settings differ in their
-- transactions, which are left open here.
inductive AgentMessage
  | settingsApplied (revision : Int) (error : Option String)
  | other
  deriving DecidableEq, Repr

-- Where the task of a stream is.
inductive Phase
  -- It waits for the gate to register its node, has the gate, and has registered it.
  | waiting
  | registering
  | registered (registration : AgentRegistration)
  -- It waits for a message, has one and waits for the gate, has the gate, and has found that it is the
  -- current stream.
  | listening
  | received (message : AgentMessage)
  | handling (message : AgentMessage)
  | admitted (message : AgentMessage)
  -- The acknowledgement is in the store, but not in the session.
  | answered (outcome : SettingsAckOutcome)
  -- It waits for the gate to end, has the gate, and has removed the session if that was its own.
  | closing
  | removing
  | removed (wasCurrent : Bool)
  | leaving
  deriving DecidableEq, Repr

namespace Phase

def holdsGate : Phase → Bool
  | registering | registered _ | handling _ | admitted _ | answered _ | removing | removed _
  | leaving                                      => true
  | waiting | listening | received _ | closing => false

-- What a task does with the gate that it waits for.
def locked : Phase → Option Phase
  | waiting          => some registering
  | received message => some (handling message)
  | closing          => some removing
  | _                => none

end Phase

-- A task with the gate of its node, which is told apart from other gates by a number.
structure Stream where
  connectionId : Uuid
  gate         : Nat
  phase        : Phase
  deriving DecidableEq, Repr

instance keyedStream : Keyed Stream Uuid where
  key := Stream.connectionId

-- The coordinator as far as one node is concerned: its session, the entry of the map of gates, the tasks
-- of its streams, and the documents that were stored for it. Identifiers below `fresh` are used up.
structure Connections where
  registry : Registry
  store    : Store
  session  : Option AgentSession
  gate     : Option Nat
  streams  : Table Stream
  fresh    : Nat
  history  : List NodeSettings

namespace Connections

def initial : Connections where
  registry := .initial
  store    := .empty
  session  := none
  gate     := none
  streams  := ∅
  fresh    := 0
  history  := []

inductive Step
  | lock
  | register (hostname : String) (labels : List (String × String)) (capacity running : Nat)
      (now : Time)
  | publish (hello : AgentHello) (health : NodeHealthState) (now : Time)
  | fail
  | receive (message : AgentMessage)
  | check
  | settle
  | apply
  | perform (op : Op)
  | renew (running : Nat) (now : Time)
  | finish (running : Nat)
  | abort
  | close
  | remove
  | forget
  | prune

-- The steps in which a task handles a message.
def Step.handles : Step → Bool
  | receive _ | check | settle | apply | perform _ | renew .. | finish _ | abort => true
  | _                                                                            => false

inductive Act
  | connect
  | step (connectionId : Uuid) (step : Step)
  | edit (expectedRevision : Int) (settings : NodeSettings) (lockToken : String) (now : Time)
  | transact (op : RegistryOp)
  | store (op : Op)
  | touch (running : Nat) (health : NodeHealthState) (lastAssigned : Time)
  | restart

variable (id : String) (s : Connections)

def move (st : Stream) (phase : Phase) : Connections :=
  { s with streams := s.streams.update (·.connectionId = st.connectionId) ({ · with phase }) }

-- The task is over, and its reference to the gate with it.
def leave (st : Stream) : Connections :=
  { s with streams := s.streams.delete (·.connectionId = st.connectionId) }

def isCurrentSession (st : Stream) : Bool :=
  s.session.any (·.connectionId = st.connectionId)

-- The references to a gate: those of the tasks, and that of the map.
def strongCount (gate : Nat) : Nat :=
  s.streams.rows.countP (·.gate = gate) + if s.gate = some gate then 1 else 0

-- `current_session_mut`.
def mapCurrent (st : Stream) (f : AgentSession → AgentSession) : Option AgentSession :=
  s.session.map fun session => if session.connectionId = st.connectionId then f session else session

-- A step of a task. In a phase in which the task does not take it nothing happens.
def advance (st : Stream) : Step → Connections
  | .lock =>
    match st.phase.locked with
    | some phase => s.move st phase
    | none       => s
  | .register hostname labels capacity running now =>
    match st.phase with
    | .registering =>
      match s.registry.upsertAgent id hostname labels capacity running now with
      | .error _               => s.leave st
      | .ok (registration, ρ') => { s.move st (.registered registration) with
          registry := ρ'
          history  := registration.desiredSettings :: s.history
        }
    | _ => s
  | .publish hello health now =>
    match st.phase with
    | .registered registration =>
      let placement := reconnectPlacement registration.desiredSettings
        registration.appliedSettingsRevision s.session
      { s.move st .listening with
        session := some <| .connect hello st.connectionId placement health now
      }
    | _ => s
  -- A failure before the session is published, which ends the task without a look at the gates.
  | .fail =>
    match st.phase with
    | .waiting | .registering | .registered _ => s.leave st
    | _                                       => s
  | .receive message =>
    match st.phase with
    | .listening => s.move st <| if s.isCurrentSession st then .received message else .closing
    | _          => s
  | .check =>
    match st.phase with
    | .handling message => s.move st <| if s.isCurrentSession st then .admitted message else .closing
    | _                 => s
  | .settle =>
    match st.phase with
    | .admitted (.settingsApplied revision error) =>
      match s.registry.settingsApplied id revision error with
      | .error _          => s.move st .closing
      | .ok (outcome, ρ') => { s.move st (.answered outcome) with registry := ρ' }
    | _ => s
  | .apply =>
    match st.phase with
    | .answered outcome => { s.move st .listening with
        session := s.mapCurrent st (·.applySettingsAck outcome)
      }
    | _ => s
  | .perform op =>
    match st.phase with
    | .admitted .other => { s with store := s.store.exec op }
    | _                => s
  -- The row of the node that a heartbeat changes.
  | .renew running now =>
    match st.phase with
    | .admitted .other => { s with registry := s.registry.exec (.heartbeat id running now) }
    | _                => s
  | .finish running =>
    match st.phase with
    | .admitted .other => { s.move st .listening with
        session := s.mapCurrent st ({ · with running })
      }
    | _ => s
  | .abort =>
    match st.phase with
    | .admitted _ => s.move st .closing
    | _           => s
  | .close =>
    match st.phase with
    | .listening => s.move st .closing
    | _          => s
  | .remove =>
    match st.phase with
    | .removing =>
      let isCurrent := s.isCurrentSession st
      { s.move st (.removed isCurrent) with session := if isCurrent then none else s.session }
    | _ => s
  | .forget =>
    match st.phase with
    | .removed isCurrent => { s.move st .leaving with
        registry := if isCurrent then s.registry.exec (.disconnectAgent id) else s.registry
      }
    | _ => s
  -- `prune_agent_gate`, in which the reference of the map and that of the task are counted.
  | .prune =>
    match st.phase with
    | .leaving => { s.leave st with
        gate := if s.gate = some st.gate && s.strongCount st.gate = 2 then none else s.gate
      }
    | _ => s

def exec : Act → Connections
  -- `agent_gate` makes a gate if there is none.
  | .connect =>
    let gate := s.gate.getD s.fresh
    { s with
      gate    := some gate
      streams := s.streams.insertOrIgnore ⟨s.fresh, gate, .waiting⟩
      fresh   := s.fresh + 1
    }
  | .step connectionId step =>
    match s.streams.get? connectionId with
    | some st => s.advance id st step
    | none    => s
  | .edit expectedRevision settings lockToken now =>
    match s.registry.updateSettings (.node id) expectedRevision (some settings) lockToken now with
    | .error _           => s
    | .ok (revision, ρ') => { s with
        registry := ρ'
        history  := { settings with revision } :: s.history
      }
  | .transact op => { s with registry := s.registry.exec op }
  | .store op => { s with store := s.store.exec op }
  -- What the dispatcher and the health tasks write to the session.
  | .touch running health lastAssigned =>
    { s with session := s.session.map ({ · with running, health, lastAssigned }) }
  | .restart => { s with session := none, gate := none, streams := ∅ }

-- No task has the gate.
def isFree (gate : Nat) : Bool :=
  s.streams.rows.all fun st => st.gate ≠ gate || !st.phase.holdsGate

def Enabled : Act → Prop
  | .step connectionId .lock => ∀ st ∈ s.streams.get? connectionId, s.isFree st.gate
  | .transact op             => op.concerns id = false
  | _                        => True

instance decidableEnabled : ∀ act, Decidable (s.Enabled id act)
  | .step connectionId .lock =>
    inferInstanceAs (Decidable (∀ st ∈ s.streams.get? connectionId, s.isFree st.gate))
  | .transact op => inferInstanceAs (Decidable (op.concerns id = false))
  | .step _ (.register ..) | .step _ (.publish ..) | .step _ .fail | .step _ (.receive _)
  | .step _ .check | .step _ .settle | .step _ .apply | .step _ (.perform _) | .step _ (.renew ..)
  | .step _ (.finish _) | .step _ .abort | .step _ .close | .step _ .remove | .step _ .forget
  | .step _ .prune | .connect | .edit .. | .store _ | .touch .. | .restart =>
    inferInstanceAs (Decidable True)

end Connections

def connections (id : String) : Machine Connections Connections.Act where
  exec    := Connections.exec id
  Enabled := Connections.Enabled id

instance decidableConnectionsEnabled {id : String} {s : Connections} {act : Connections.Act} :
    Decidable ((connections id).Enabled s act) :=
  s.decidableEnabled id act

namespace Connections

-- No handler has the gate of the node.
def Idle (s : Connections) : Prop :=
  ∀ st ∈ s.streams, st.phase.holdsGate = false

-- The document that was stored under a revision.
def document (s : Connections) (revision : Int) : Option NodeSettings :=
  s.history.find? (·.revision = revision)

-- A session places runs by the document of the revision that the node has applied.
structure Faithful (applied : Int) (history : List NodeSettings) (session : AgentSession) : Prop where
  revision : session.appliedSettingsRevision = applied
  document : session.enabled → ∃ d ∈ history, d.revision = applied ∧ d.enabled ∧
    session.labels = d.labels ∧ session.capacity = d.maxParallel

-- What a task that has the gate has found out is still the case.
def Sound (applied : Int) (history : List NodeSettings) (session : Option AgentSession) (st : Stream) :
    Prop :=
  match st.phase with
  | .registered r     => r.desiredSettings ∈ history ∧ r.appliedSettingsRevision = applied
  | .admitted _       => session.any (·.connectionId = st.connectionId)
  | .answered outcome => session.any (·.connectionId = st.connectionId) ∧
    (outcome.status = .applied → ∃ d ∈ history, outcome.appliedSettings = some d ∧ d.revision = applied)
  | _                 => True

-- The acknowledgement of a task has yet to get to the session.
def Pending (st : Stream) : Prop :=
  ∃ outcome, st.phase = .answered outcome ∧ outcome.status = .applied

structure Orderly (id : String) (s : Connections) : Prop where
  recorded  : Registry.Recorded id s.registry s.history
  shared    : ∀ st ∈ s.streams, s.gate = some st.gate
  exclusive : ∀ st ∈ s.streams, ∀ st' ∈ s.streams, st.phase.holdsGate → st'.phase.holdsGate → st = st'
  unused    : ∀ st ∈ s.streams, st.connectionId < s.fresh
  sound     : ∀ st ∈ s.streams, Sound (s.registry.applied id) s.history s.session st
  placed    : ∀ session ∈ s.session, Faithful (s.registry.applied id) s.history session ∨
    ∃ st ∈ s.streams, Pending st

variable {id : String} {s : Connections} {st st' : Stream} {phase : Phase}

theorem Faithful.mono {applied : Int} {history history' : List NodeSettings} {session : AgentSession}
    (h : Faithful applied history session) (hs : ∀ d ∈ history, d ∈ history') :
    Faithful applied history' session where
  revision    := h.revision
  document he :=
    have ⟨d, hd, hx⟩ := h.document he
    ⟨d, hs d hd, hx⟩

theorem Sound.mono {applied : Int} {history history' : List NodeSettings}
    {session session' : Option AgentSession} (h : Sound applied history session st)
    (hs : ∀ d ∈ history, d ∈ history')
    (hc : session'.map AgentSession.connectionId = session.map AgentSession.connectionId) :
    Sound applied history' session' st := by
  have hc' {c : Uuid} : session'.any (·.connectionId = c) = session.any (·.connectionId = c) := by
    simpa [Option.any_map, Function.comp_def] using congrArg (Option.any (· = c)) hc
  unfold Sound at h ⊢
  split
  case h_1 he => simp only [he] at h; exact ⟨hs _ h.left, h.right⟩
  case h_2 he => simp only [he] at h; exact hc' ▸ h
  case h_3 he =>
    simp only [he] at h
    refine ⟨hc' ▸ h.left, fun ha => ?_⟩
    obtain ⟨d, hd, hx⟩ := h.right ha
    exact ⟨d, hs d hd, hx⟩
  case h_4 => trivial

theorem Sound.of_not_holdsGate {applied : Int} {history : List NodeSettings}
    {session : Option AgentSession} (h : st.phase.holdsGate = false) : Sound applied history session st := by
  unfold Sound
  split
  case h_1 he | h_2 he | h_3 he =>
    rw [he] at h
    cases h
  case h_4 => trivial

theorem Pending.holdsGate (h : Pending st) : st.phase.holdsGate := by
  obtain ⟨outcome, hp, _⟩ := h
  rw [hp]
  rfl

theorem mem_move : st' ∈ (s.move st phase).streams ↔
    ∃ st₁ ∈ s.streams, (if st₁.connectionId = st.connectionId then { st₁ with phase } else st₁) = st' := by
  simp [move, Table.mem_update]

theorem mem_leave : st' ∈ (s.leave st).streams ↔ st' ∈ s.streams ∧ st'.connectionId ≠ st.connectionId := by
  simp [leave, Table.mem_delete]

theorem eq_of_connectionId (hm : st ∈ s.streams) (hm' : st' ∈ s.streams)
    (he : st'.connectionId = st.connectionId) : st' = st :=
  Table.key_injOn hm' hm he

-- A task in a new phase, and the others.
theorem mem_move_cases (hm : st ∈ s.streams) (hx : st' ∈ (s.move st phase).streams) :
    st' = { st with phase } ∨ st' ∈ s.streams ∧ st' ≠ st := by
  obtain ⟨st₁, hm₁, rfl⟩ := mem_move.mp hx
  split
  case isTrue he => exact .inl <| eq_of_connectionId hm hm₁ he ▸ rfl
  case isFalse he => exact .inr ⟨hm₁, fun hn => he <| hn ▸ rfl⟩

namespace Orderly

variable (h : Orderly id s)
include h

theorem not_holdsGate (hm : st ∈ s.streams) (hg : st.phase.holdsGate) (hm' : st' ∈ s.streams)
    (hn : st' ≠ st) : st'.phase.holdsGate = false := by
  by_contra hx
  exact hn <| h.exclusive st' hm' st hm (by simpa using hx) hg

-- The task that has the gate is the only one that could have left the session behind.
theorem faithful (hm : st ∈ s.streams) (hg : st.phase.holdsGate) (hn : ¬Pending st)
    {session : AgentSession} (hs : session ∈ s.session) :
    Faithful (s.registry.applied id) s.history session := by
  refine (h.placed session hs).resolve_right ?_
  rintro ⟨st', hm', hp⟩
  exact hn <| h.exclusive st' hm' st hm hp.holdsGate hg ▸ hp

-- A step of the task that has the gate.
theorem move_holder (hm : st ∈ s.streams) (hg : st.phase.holdsGate) {ρ : Registry} {store : Store}
    {session : Option AgentSession} {history : List NodeSettings}
    (hr : Registry.Recorded id ρ history)
    (hs : Sound (ρ.applied id) history session { st with phase })
    (hp : ∀ x ∈ session, Faithful (ρ.applied id) history x ∨ Pending { st with phase }) :
    Orderly id { s.move st phase with registry := ρ, store, session, history } where
  recorded  := hr
  shared    := by
    intro st' hx
    rcases mem_move_cases hm hx with rfl | ⟨hm', _⟩
    case inl => exact h.shared st hm
    case inr => exact h.shared st' hm'
  exclusive := by
    intro st₁ hx₁ st₂ hx₂ hg₁ hg₂
    rcases mem_move_cases hm hx₁ with rfl | ⟨hm₁, hn₁⟩ <;>
      rcases mem_move_cases hm hx₂ with rfl | ⟨hm₂, hn₂⟩
    case inl.inl => rfl
    case inl.inr => simp [h.not_holdsGate hm hg hm₂ hn₂] at hg₂
    case inr.inl | inr.inr => simp [h.not_holdsGate hm hg hm₁ hn₁] at hg₁
  unused    := by
    intro st' hx
    rcases mem_move_cases hm hx with rfl | ⟨hm', _⟩
    case inl => exact h.unused st hm
    case inr => exact h.unused st' hm'
  sound     := by
    intro st' hx
    rcases mem_move_cases hm hx with rfl | ⟨hm', hn⟩
    case inl => exact hs
    case inr => exact .of_not_holdsGate <| h.not_holdsGate hm hg hm' hn
  placed    := by
    intro x hx
    refine (hp x hx).imp_right fun hp => ⟨{ st with phase }, ?_, hp⟩
    exact mem_move.mpr ⟨st, hm, if_pos rfl⟩

-- A step of a task that does not have the gate.
theorem move_other (hm : st ∈ s.streams) (hg : st.phase.holdsGate = false)
    (hx : phase.holdsGate → ∀ st' ∈ s.streams, st'.phase.holdsGate = false)
    (hs : Sound (s.registry.applied id) s.history s.session { st with phase }) :
    Orderly id (s.move st phase) where
  recorded  := h.recorded
  shared    := by
    intro st' hx
    rcases mem_move_cases hm hx with rfl | ⟨hm', _⟩
    case inl => exact h.shared st hm
    case inr => exact h.shared st' hm'
  exclusive := by
    intro st₁ hx₁ st₂ hx₂ hg₁ hg₂
    rcases mem_move_cases hm hx₁ with rfl | ⟨hm₁, hn₁⟩ <;>
      rcases mem_move_cases hm hx₂ with rfl | ⟨hm₂, hn₂⟩
    case inl.inl => rfl
    case inl.inr => simp [hx hg₁ st₂ hm₂] at hg₂
    case inr.inl => simp [hx hg₂ st₁ hm₁] at hg₁
    case inr.inr => exact h.exclusive st₁ hm₁ st₂ hm₂ hg₁ hg₂
  unused    := by
    intro st' hx
    rcases mem_move_cases hm hx with rfl | ⟨hm', _⟩
    case inl => exact h.unused st hm
    case inr => exact h.unused st' hm'
  sound     := by
    intro st' hx
    rcases mem_move_cases hm hx with rfl | ⟨hm', _⟩
    case inl => exact hs
    case inr => exact h.sound st' hm'
  placed    := by
    intro x hx
    refine (h.placed x hx).imp_right fun ⟨st', hm', hp⟩ => ⟨st', ?_, hp⟩
    refine mem_move.mpr ⟨st', hm', if_neg fun he => ?_⟩
    rw [eq_of_connectionId hm hm' he] at hp
    simp [hp.holdsGate] at hg

-- The end of a task. Its gate is taken out of the map only if no other task refers to it.
theorem leave (hm : st ∈ s.streams) (hn : ¬Pending st) {gate : Option Nat}
    (hg : gate = s.gate ∨ ∀ st' ∈ s.streams, st' = st) : Orderly id { s.leave st with gate } where
  recorded  := h.recorded
  shared    := by
    intro st' hx
    obtain ⟨hm', hc⟩ := mem_leave.mp hx
    rcases hg with rfl | hg
    case inl => exact h.shared st' hm'
    case inr => exact absurd (hg st' hm' ▸ rfl) hc
  exclusive := by
    intro st₁ hx₁ st₂ hx₂
    exact h.exclusive st₁ (mem_leave.mp hx₁).left st₂ (mem_leave.mp hx₂).left
  unused    := fun st' hx => h.unused st' (mem_leave.mp hx).left
  sound     := fun st' hx => h.sound st' (mem_leave.mp hx).left
  placed    := by
    intro x hx
    refine (h.placed x hx).imp_right fun ⟨st', hm', hp⟩ => ⟨st', ?_, hp⟩
    exact mem_leave.mpr ⟨hm', fun he => hn <| eq_of_connectionId hm hm' he ▸ hp⟩

-- A transaction that does not touch what the node has applied.
theorem transact {ρ : Registry} {store : Store} {history : List NodeSettings}
    {session : Option AgentSession} (hr : Registry.Recorded id ρ history)
    (ha : ρ.applied id = s.registry.applied id) (hs : ∀ d ∈ s.history, d ∈ history)
    (hc : session.map AgentSession.connectionId = s.session.map AgentSession.connectionId)
    (hp : ∀ x ∈ session, ∃ y ∈ s.session, x.enabled = y.enabled ∧ x.labels = y.labels ∧
      x.capacity = y.capacity ∧ x.appliedSettingsRevision = y.appliedSettingsRevision) :
    Orderly id { s with registry := ρ, store, session, history } where
  recorded  := hr
  shared    := h.shared
  exclusive := h.exclusive
  unused    := h.unused
  sound     := fun st hm => ha.symm ▸ (h.sound st hm).mono hs hc
  placed    := by
    intro x hx
    obtain ⟨y, hy, he, hl, hk, hv⟩ := hp x hx
    refine (h.placed y hy).imp_left fun hf => ?_
    have hf := hf.mono hs
    simp only [ha]
    exact ⟨hv.trans hf.revision, fun hx => hl ▸ hk ▸ hf.document (he ▸ hx)⟩

theorem move_same (hm : st ∈ s.streams) (hg : st.phase.holdsGate) (hn : ¬Pending st)
    (hs : Sound (s.registry.applied id) s.history s.session { st with phase }) :
    Orderly id (s.move st phase) :=
  h.move_holder hm hg h.recorded hs fun _ hx => .inl <| h.faithful hm hg hn hx

theorem lock (hm : st ∈ s.streams) (hp : st.phase.locked = some phase) (hf : s.isFree st.gate) :
    Orderly id (s.move st phase) := by
  have hn : ∀ st' ∈ s.streams, st'.phase.holdsGate = false := by
    intro st' hm'
    have hg : st'.gate = st.gate := Option.some.inj <| (h.shared st' hm').symm.trans (h.shared st hm)
    simpa [hg] using List.all_eq_true.mp hf st' hm'
  refine h.move_other hm (hn st hm) (fun _ => hn) ?_
  revert hp
  unfold Phase.locked
  split
  all_goals rintro ⟨⟩
  all_goals trivial

theorem register (hm : st ∈ s.streams) (hp : st.phase = .registering) {hostname : String}
    {labels : List (String × String)} {capacity running : Nat} {now : Time}
    {registration : AgentRegistration} {ρ : Registry}
    (hu : s.registry.upsertAgent id hostname labels capacity running now = .ok (registration, ρ)) :
    Orderly id { s.move st (.registered registration) with
      registry := ρ
      history  := registration.desiredSettings :: s.history
    } := by
  obtain ⟨_, _, ha, hr, _⟩ := Registry.upsertAgent_node hu
  have hg : st.phase.holdsGate := hp ▸ rfl
  have hn : ¬Pending st := by simp [Pending, hp]
  refine h.move_holder hm hg (h.recorded.register hu) ⟨.head _, hr.trans ha.symm⟩ fun x hx => .inl ?_
  exact ha ▸ (h.faithful hm hg hn hx).mono fun _ => .tail _

theorem publish (hm : st ∈ s.streams) {registration : AgentRegistration}
    (hp : st.phase = .registered registration) (hello : AgentHello) (health : NodeHealthState)
    (now : Time) :
    Orderly id { s.move st .listening with
      session := some <| .connect hello st.connectionId (reconnectPlacement
        registration.desiredSettings registration.appliedSettingsRevision s.session) health now
    } := by
  have hg : st.phase.holdsGate := hp ▸ rfl
  have hn : ¬Pending st := by simp [Pending, hp]
  obtain ⟨hd, ha⟩ : registration.desiredSettings ∈ s.history ∧
      registration.appliedSettingsRevision = s.registry.applied id := by
    simpa [Sound, hp] using h.sound st hm
  refine h.move_holder hm hg h.recorded trivial fun x hx => .inl ?_
  cases hx
  simp only [reconnectPlacement, ha]
  split
  case h_1 previous hf =>
    -- The session before was faithful to the same revision.
    have hf := Option.filter_eq_some_iff.mp hf
    have hx := h.faithful hm hg hn hf.left
    exact ⟨rfl, hx.document⟩
  case h_2 =>
    split
    case isTrue he => exact ⟨rfl, fun hx => ⟨_, hd, he.symm, hx, rfl, rfl⟩⟩
    case isFalse => exact ⟨rfl, fun hx => absurd hx Bool.false_ne_true⟩

theorem settle (hm : st ∈ s.streams) {revision : Int} {error : Option String}
    (hp : st.phase = .admitted (.settingsApplied revision error)) {outcome : SettingsAckOutcome}
    {ρ : Registry} (ho : s.registry.settingsApplied id revision error = .ok (outcome, ρ)) :
    Orderly id { s.move st (.answered outcome) with registry := ρ } := by
  have hg : st.phase.holdsGate := hp ▸ rfl
  have hn : ¬Pending st := by simp [Pending, hp]
  have hc : s.session.any (·.connectionId = st.connectionId) := by simpa [Sound, hp] using h.sound st hm
  obtain ⟨hr, hx⟩ := h.recorded.settingsApplied ho
  by_cases ha : outcome.status = .applied
  case pos =>
    rw [if_pos ha] at hx
    obtain ⟨d, hd, hs, hv⟩ := hx
    refine h.move_holder hm hg hr ⟨hc, fun _ => ?_⟩ fun x _ => .inr ⟨outcome, rfl, ha⟩
    exact ⟨d, h.recorded.mem_of_stored hd, hs, hv.symm⟩
  case neg =>
    rw [if_neg ha] at hx
    refine h.move_holder hm hg hr ⟨hc, fun hx => absurd hx ha⟩ fun x hm' => .inl ?_
    exact hx ▸ h.faithful hm hg hn hm'

theorem apply (hm : st ∈ s.streams) {outcome : SettingsAckOutcome} (hp : st.phase = .answered outcome) :
    Orderly id { s.move st .listening with session := s.mapCurrent st (·.applySettingsAck outcome) } := by
  have hg : st.phase.holdsGate := hp ▸ rfl
  obtain ⟨hc, ho⟩ : s.session.any (·.connectionId = st.connectionId) ∧ (outcome.status = .applied →
      ∃ d ∈ s.history, outcome.appliedSettings = some d ∧ d.revision = s.registry.applied id) := by
    simpa [Sound, hp] using h.sound st hm
  refine h.move_holder hm hg h.recorded trivial fun x hx => .inl ?_
  obtain ⟨session, hs, rfl⟩ := Option.map_eq_some_iff.mp hx
  rw [hs, Option.any_some, decide_eq_true_eq] at hc
  rw [if_pos hc]
  by_cases ha : outcome.status = .applied
  case pos =>
    obtain ⟨d, hd, he, hv⟩ := ho ha
    simp only [AgentSession.applySettingsAck, ne_eq, ha, not_true_eq_false, if_false, he]
    exact ⟨hv, fun hx => ⟨d, hd, hv, hx, rfl, rfl⟩⟩
  case neg =>
    simp only [AgentSession.applySettingsAck, ne_eq, ha, not_false_eq_true, if_true]
    exact h.faithful hm hg (by simp [Pending, hp, ha]) hs

theorem finish (hm : st ∈ s.streams) (hp : st.phase = .admitted .other) (running : Nat) :
    Orderly id { s.move st .listening with session := s.mapCurrent st ({ · with running }) } := by
  have hg : st.phase.holdsGate := hp ▸ rfl
  have hn : ¬Pending st := by simp [Pending, hp]
  refine h.move_holder hm hg h.recorded trivial fun x hx => .inl ?_
  obtain ⟨session, hs, rfl⟩ := Option.map_eq_some_iff.mp hx
  have hf := h.faithful hm hg hn hs
  split
  case isTrue => exact ⟨hf.revision, hf.document⟩
  case isFalse => exact hf

theorem remove (hm : st ∈ s.streams) (hp : st.phase = .removing) (isCurrent : Bool) :
    Orderly id { s.move st (.removed isCurrent) with
      session := if isCurrent then none else s.session
    } := by
  have hg : st.phase.holdsGate := hp ▸ rfl
  refine h.move_holder hm hg h.recorded trivial fun x hx => .inl ?_
  refine h.faithful hm hg (by simp [Pending, hp]) ?_
  cases isCurrent
  case false => exact hx
  case true => cases hx

-- Transactions that leave the settings of the node alone.
theorem of_node {ρ : Registry} (store : Store) (hs : ρ.Settled) (hn : ρ.node id = s.registry.node id) :
    Orderly id { s with registry := ρ, store } :=
  h.transact (h.recorded.of_documents hs (congrArg Prod.fst hn)) (Registry.applied_congr hn)
    (fun _ hd => hd) rfl fun x hx => ⟨x, hx, rfl, rfl, rfl, rfl⟩

theorem prune (hm : st ∈ s.streams) (hp : st.phase = .leaving) :
    Orderly id { s.leave st with
      gate := if s.gate = some st.gate && s.strongCount st.gate = 2 then none else s.gate
    } := by
  refine h.leave hm (by simp [Pending, hp]) ?_
  split
  case isFalse => exact .inl rfl
  case isTrue hc =>
    -- All tasks refer to the gate of the map, so that one reference is one task.
    have hg : s.gate = some st.gate := h.shared st hm
    have hl : s.streams.rows.length = 1 := by
      rw [← List.countP_eq_length (p := (·.gate = st.gate)) |>.mpr]
      case _ => simpa [strongCount, hg] using hc
      case _ =>
        intro st' hm'
        simpa [hg, eq_comm] using h.shared st' hm'
    obtain ⟨st₁, hx⟩ := List.length_eq_one_iff.mp hl
    refine .inr fun st' hm' => ?_
    rw [← Table.mem_rows, hx, List.mem_singleton] at hm hm'
    rw [hm, hm']

theorem advance (hm : st ∈ s.streams) {step : Step}
    (he : step = .lock → s.isFree st.gate) : Orderly id (s.advance id st step) := by
  cases step <;> simp only [Connections.advance]
  case lock =>
    split
    case h_1 hp => exact h.lock hm hp (he rfl)
    case h_2 => exact h
  case register =>
    split
    case h_1 hp =>
      split
      case h_1 => exact h.leave hm (by simp [Pending, hp]) (.inl rfl)
      case h_2 hu => exact h.register hm hp hu
    case h_2 => exact h
  case publish hello health now =>
    split
    case h_1 hp => exact h.publish hm hp hello health now
    case h_2 => exact h
  case fail =>
    split
    case h_1 hp | h_2 hp | h_3 hp => exact h.leave hm (by simp [Pending, hp]) (.inl rfl)
    case h_4 => exact h
  case receive =>
    split
    case h_2 => exact h
    case h_1 hp =>
      refine h.move_other hm (by rw [hp]; rfl) ?_ ?_
      case _ => split <;> rintro ⟨⟩
      case _ => split <;> trivial
  case check =>
    split
    case h_2 => exact h
    case h_1 hp =>
      refine h.move_same hm (hp ▸ rfl) (by simp [Pending, hp]) ?_
      split
      case isTrue hc => exact hc
      case isFalse => trivial
  case settle =>
    split
    case h_2 => exact h
    case h_1 hp =>
      split
      case h_1 => exact h.move_same hm (hp ▸ rfl) (by simp [Pending, hp]) trivial
      case h_2 ho => exact h.settle hm hp ho
  case apply =>
    split
    case h_1 hp => exact h.apply hm hp
    case h_2 => exact h
  case perform =>
    split
    case h_1 => exact h.of_node _ h.recorded.settled rfl
    case h_2 => exact h
  case renew =>
    split
    case h_1 => exact h.of_node _ (Registry.exec_settled h.recorded.settled _).left (Registry.node_exec rfl)
    case h_2 => exact h
  case finish running =>
    split
    case h_1 hp => exact h.finish hm hp running
    case h_2 => exact h
  case abort =>
    split
    case h_1 hp => exact h.move_same hm (hp ▸ rfl) (by simp [Pending, hp]) trivial
    case h_2 => exact h
  case close =>
    split
    case h_1 hp => exact h.move_other hm (by rw [hp]; rfl) (by rintro ⟨⟩) trivial
    case h_2 => exact h
  case remove =>
    split
    case h_1 hp => exact h.remove hm hp _
    case h_2 => exact h
  case forget =>
    split
    case h_2 => exact h
    case h_1 isCurrent hp =>
      have hx : Orderly id (s.move st .leaving) :=
        h.move_same hm (hp ▸ rfl) (by simp [Pending, hp]) trivial
      cases isCurrent
      case false => exact hx
      case true =>
        have hs := (Registry.exec_settled h.recorded.settled (.disconnectAgent id)).left
        have hn : (s.registry.exec (.disconnectAgent id)).node id = s.registry.node id :=
          Registry.node_exec rfl
        exact hx.of_node _ hs hn
  case prune =>
    split
    case h_1 hp => exact h.prune hm hp
    case h_2 => exact h

-- A new task waits for the gate that is in the map, which is a new one only if there are no tasks.
theorem connect : Orderly id (s.exec id .connect) := by
  have hn : s.streams.get? s.fresh = none := by
    refine Table.get?_eq_none.mpr fun st hm he => ?_
    exact absurd he (h.unused st hm).ne
  obtain ⟨t, hi⟩ := Table.insert_isSome (a := (⟨s.fresh, s.gate.getD s.fresh, .waiting⟩ : Stream)) hn
  have hm {st} : st ∈ t ↔ st ∈ s.streams ∨ st = ⟨s.fresh, s.gate.getD s.fresh, .waiting⟩ :=
    Table.mem_of_insert hi
  simp only [exec, Table.insertOrIgnore, hi, Option.getD_some]
  refine ⟨h.recorded, ?_, ?_, ?_, ?_, ?_⟩
  case refine_1 =>
    intro st hx
    rcases hm.mp hx with hx | rfl
    case inl => simp [h.shared st hx]
    case inr => rfl
  case refine_2 =>
    intro st₁ hx₁ st₂ hx₂ hg₁ hg₂
    rcases hm.mp hx₁ with hx₁ | rfl
    case inr => cases hg₁
    case inl =>
      rcases hm.mp hx₂ with hx₂ | rfl
      case inl => exact h.exclusive st₁ hx₁ st₂ hx₂ hg₁ hg₂
      case inr => cases hg₂
  case refine_3 =>
    intro st hx
    rcases hm.mp hx with hx | rfl
    case inl => exact (h.unused st hx).trans (Nat.lt_succ_self _)
    case inr => exact Nat.lt_succ_self _
  case refine_4 =>
    intro st hx
    rcases hm.mp hx with hx | rfl
    case inl => exact h.sound st hx
    case inr => trivial
  case refine_5 =>
    intro x hx
    refine (h.placed x hx).imp_right ?_
    rintro ⟨st, hst, hp⟩
    exact ⟨st, hm.mpr <| .inl hst, hp⟩

theorem exec {act : Act} (he : s.Enabled id act) : Orderly id (s.exec id act) := by
  cases act
  case connect => exact h.connect
  case step c step =>
    simp only [Connections.exec]
    split
    case h_2 => exact h
    case h_1 st hg =>
      refine h.advance (Table.mem_of_get? hg) ?_
      rintro rfl
      exact he st hg
  case edit =>
    simp only [Connections.exec]
    split
    case h_1 => exact h
    case h_2 hu =>
      refine h.transact (h.recorded.edit hu).right ?_ (fun _ => .tail _) rfl
        fun x hx => ⟨x, hx, rfl, rfl, rfl, rfl⟩
      exact (Registry.updateSettings_node hu).right.right.right.left
  case transact op =>
    exact h.of_node _ (Registry.exec_settled h.recorded.settled op).left (Registry.node_exec he)
  case store => exact h.of_node _ h.recorded.settled rfl
  case touch =>
    refine h.transact h.recorded rfl (fun _ hd => hd) (by simp [Function.comp_def]) fun x hx => ?_
    obtain ⟨y, hy, rfl⟩ := Option.map_eq_some_iff.mp hx
    exact ⟨y, hy, rfl, rfl, rfl, rfl⟩
  case restart =>
    exact ⟨h.recorded, by simp [Connections.exec], by simp [Connections.exec], by simp [Connections.exec],
      by simp [Connections.exec], by simp [Connections.exec]⟩

end Orderly

theorem Orderly.initial : Orderly id .initial :=
  ⟨.initial, by simp [Connections.initial], by simp [Connections.initial],
    by simp [Connections.initial], by simp [Connections.initial], by simp [Connections.initial]⟩

theorem Orderly.of_reachable (h : (connections id).Reachable .initial s) : Orderly id s :=
  h.invariant (I := Orderly id) (fun _ _ h he => h.exec he) .initial

-- A task that handles a message and is not the current one has no effect but on itself.
theorem Orderly.superseded (h : Orderly id s) {c : Uuid} {step : Step} (hs : step.handles)
    (hc : ∀ session ∈ s.session, session.connectionId ≠ c) :
    (s.exec id (.step c step)).session = s.session ∧ (s.exec id (.step c step)).registry = s.registry ∧
      (s.exec id (.step c step)).store = s.store := by
  simp only [Connections.exec]
  split
  case h_2 => exact ⟨rfl, rfl, rfl⟩
  case h_1 st hg =>
    have hk : st.connectionId = c := Table.key_of_get? hg
    have hn : ¬s.session.any (·.connectionId = st.connectionId) := by
      rw [Option.any_eq_true]
      rintro ⟨session, hx, he⟩
      exact hc session hx <| (of_decide_eq_true he).trans hk
    have hx := h.sound st (Table.mem_of_get? hg)
    cases step <;> simp only [Connections.advance]
    case lock | register | publish | fail | close | remove | forget | prune => cases hs
    case receive | check | abort =>
      split
      case h_1 | h_2 => exact ⟨rfl, rfl, rfl⟩
    case settle | perform | renew | finish =>
      split
      case h_2 => exact ⟨rfl, rfl, rfl⟩
      case h_1 hp => exact absurd (by simpa [Sound, hp] using hx) hn
    case apply =>
      split
      case h_2 => exact ⟨rfl, rfl, rfl⟩
      case h_1 hp =>
        simp only [Sound, hp] at hx
        exact absurd hx.left hn

theorem placement_acknowledged {id : String} {s : Connections}
    (h : (connections id).Reachable .initial s) :
    (s.Idle → ∀ session ∈ s.session, session.enabled →
      session.appliedSettingsRevision = s.registry.applied id ∧
        ∃ d, s.document session.appliedSettingsRevision = some d ∧ session.enabled = d.enabled ∧
          session.labels = d.labels ∧ session.capacity = d.maxParallel) ∧
    ∀ c step, step.handles → (∀ session ∈ s.session, session.connectionId ≠ c) →
      let s' := (connections id).exec s (.step c step)
      s'.session = s.session ∧ s'.registry = s.registry ∧ s'.store = s.store := by
  have ho := Orderly.of_reachable h
  refine ⟨fun hi session hs he => ?_, fun c step hx hc => ho.superseded hx hc⟩
  have hf : Faithful (s.registry.applied id) s.history session := by
    refine (ho.placed session hs).resolve_right ?_
    rintro ⟨st, hm, hp⟩
    simpa [hi st hm] using hp.holdsGate
  obtain ⟨d, hd, hv, hx, hl, hc⟩ := hf.document he
  refine ⟨hf.revision, d, ?_, he.trans hx.symm, hl, hc⟩
  rw [document, hf.revision, ← hv]
  exact ho.recorded.find?_eq hd

namespace Sample

def hello : AgentHello := ⟨"node", 0, [], []⟩

-- A node connects and acknowledges its first settings. While it opens a second stream, an
-- acknowledgement of the first one is still to be handled.
def superseded : List Act := [
  .connect, .step 0 .lock, .step 0 (.register "host" [] 2 0 0), .step 0 (.publish hello .healthy 0),
  .step 0 (.receive (.settingsApplied 1 none)), .step 0 .lock, .step 0 .check, .step 0 .settle,
  .step 0 .apply, .step 0 (.receive (.settingsApplied 1 (some "late"))),
  .connect, .step 1 .lock, .step 1 (.register "host" [] 2 0 1), .step 1 (.publish hello .healthy 1)
]

end Sample

-- The session of the second stream is enabled from the start. The first stream, which gets the gate for
-- its message then, finds that it is superseded.
theorem placement_acknowledged_superseded :
    let s := (connections "node").run .initial Sample.superseded
    let s₁ := (connections "node").exec s (.step 0 .lock)
    s.Idle ∧ (∃ session ∈ s.session, session.enabled ∧ session.connectionId = 1 ∧
      ∃ d, s.document 1 = some d ∧ session.capacity = d.maxParallel) ∧
    ((connections "node").exec s₁ (.step 0 .check)).session = s₁.session ∧
    ((connections "node").exec s₁ (.step 0 .check)).streams.get? 0 = some ⟨0, 0, .closing⟩ := by
  have hv : (connections "node").Valid .initial (Sample.superseded ++ [.step 0 .lock]) := by
    decide +kernel
  have hi : ((connections "node").run .initial Sample.superseded).Idle := by
    unfold Idle
    decide +kernel
  have ⟨hp, _⟩ := placement_acknowledged
    (Machine.Reachable.refl.run (Machine.Valid.append_iff.mp hv).left)
  have ⟨_, hs⟩ := placement_acknowledged (Machine.Reachable.refl.run hv)
  rw [Machine.run_append] at hs
  obtain ⟨session, hm, he, hc, hr⟩ :
      ∃ session ∈ ((connections "node").run .initial Sample.superseded).session,
        session.enabled ∧ session.connectionId = 1 ∧ session.appliedSettingsRevision = 1 := by
    decide +kernel
  obtain ⟨_, d, hd, _, _, hx⟩ := hp hi session hm he
  refine ⟨hi, ⟨session, hm, he, hc, d, hr ▸ hd, hx⟩, (hs 0 .check rfl ?_).left, by decide +kernel⟩
  decide +kernel

end Connections

end Scheduler
