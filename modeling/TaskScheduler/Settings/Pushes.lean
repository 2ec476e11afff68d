import TaskScheduler.Settings.Node

namespace Scheduler

-- The text of the settings is represented by the settings that it decodes to.
structure SettingsUpdate where
  revision         : Int
  settings         : NodeSettings
  heartbeatSeconds : Nat
  deriving DecidableEq, Repr

structure SettingsApplied where
  revision : Int
  error    : Option String
  deriving DecidableEq, Repr

-- `Path::is_absolute` on Unix.
def isAbsolute (path : String) : Bool :=
  path.toList.head? = some '/'

def validateSettings (settings : NodeSettings) : Except String Unit :=
  if settings.maxParallel = 0 then
    .error "max_parallel must be at least one"
  else if settings.excelMaxParallel > 1 then
    .error "excel_max_parallel cannot exceed one"
  else if (settings.allowedCommandRoots ++ settings.allowedWorkbookRoots).all isAbsolute then
    .ok ()
  else
    .error "allowlist roots must be absolute"

def NodeSettings.isAcceptable (settings : NodeSettings) : Bool :=
  (validateSettings settings).isOk

-- The settings of an agent: those in memory, and the row of its ledger.
structure NodeAgent where
  settings         : NodeSettings
  localSettings    : Option (Int × NodeSettings)
  heartbeatSeconds : Nat
  deriving DecidableEq, Repr

namespace NodeAgent

-- An agent whose ledger is empty.
def boot (capacity : Nat) : NodeAgent where
  settings         := { maxParallel := capacity }
  localSettings    := none
  heartbeatSeconds := 10

-- What the agent does with a settings message: the ledger first, then the memory, then the
-- acknowledgement. An error closes its stream.
def handleSettings (agent : NodeAgent) (update : SettingsUpdate) :
    Except String (NodeAgent × SettingsApplied) :=
  if update.heartbeatSeconds = 0 then
    .error "coordinator supplied an invalid zero heartbeat interval"
  else
    match validateSettings update.settings with
    | .error e => .ok (agent, ⟨update.revision, some e⟩)
    | .ok _    => .ok ({
        settings         := { update.settings with revision := update.revision }
        localSettings    := some (update.revision, update.settings)
        heartbeatSeconds := update.heartbeatSeconds
      }, ⟨update.revision, none⟩)

-- The revision of the settings that came from the coordinator, or zero if there are none.
def revision (agent : NodeAgent) : Int :=
  agent.localSettings.elim 0 Prod.fst

end NodeAgent

-- A call of `push_node_settings`: it has yet to read the document, or it has read it and has yet to
-- send it.
inductive Push
  | started
  | loaded (update : SettingsUpdate)
  deriving DecidableEq, Repr

def Push.update? : Push → Option SettingsUpdate
  | started       => none
  | loaded update => some update

-- The coordinator and one of its nodes. The `registration` is that of a stream which holds the gate
-- of the node and is not published yet. The `history` tells which documents were stored for the node.
structure Link where
  registry      : Registry
  registration  : Option AgentRegistration
  connected     : Bool
  pushes        : List Push
  toAgent       : List SettingsUpdate
  toCoordinator : List SettingsApplied
  agent         : NodeAgent
  history       : List NodeSettings

namespace Link

inductive Act
  | transact (op : RegistryOp)
  | register (hostname : String) (labels : List (String × String)) (capacity running : Nat)
      (now : Time)
  | publish (heartbeatSeconds : Nat)
  | refuse
  | disconnect
  | edit (expectedRevision : Int) (settings : NodeSettings) (lockToken : String) (now : Time)
  | push
  | read (heartbeatSeconds : Nat)
  | send (update : SettingsUpdate)
  | abandon (push : Push)
  | deliver
  | acknowledge

def initial (capacity : Nat) : Link where
  registry      := .initial
  registration  := none
  connected     := false
  pushes        := []
  toAgent       := []
  toCoordinator := []
  agent         := .boot capacity
  history       := []

variable (id : String) (s : Link)

-- The end of the stream: what is in its channels is lost.
def drop : Link :=
  { s with
    registry      := (s.registry.disconnectAgent id).persisted s.registry
    connected     := false
    toAgent       := []
    toCoordinator := []
  }

-- A push that ends without having sent its message.
def without (push : Push) : Link :=
  { s with pushes := s.pushes.erase push }

-- The settings frame is queued before the session is published. The stream before it is superseded.
def published (heartbeatSeconds : Nat) : Link :=
  match s.registration with
  | none              => s
  | some registration =>
    let settings := registration.desiredSettings
    { s with
      registration  := none
      connected     := true
      toAgent       := [⟨settings.revision, settings, heartbeatSeconds⟩]
      toCoordinator := []
    }

def exec : Act → Link
  | .transact op => { s with registry := s.registry.exec op }
  | .register hostname labels capacity running now =>
    match s.registry.upsertAgent id hostname labels capacity running now with
    | .error _               => s
    | .ok (registration, ρ') => { s with
        registry     := ρ'
        registration := some registration
        history      := registration.desiredSettings :: s.history
      }
  | .publish heartbeatSeconds => s.published heartbeatSeconds
  | .refuse => { s with registration := none }
  | .disconnect => s.drop id
  -- A document that was stored is then pushed.
  | .edit expectedRevision settings lockToken now =>
    match s.registry.updateSettings (.node id) expectedRevision (some settings) lockToken now with
    | .error _           => s
    | .ok (revision, ρ') => { s with
        registry := ρ'
        pushes   := .started :: s.pushes
        history  := { settings with revision } :: s.history
      }
  -- A push that follows an update of the global settings.
  | .push => { s with pushes := .started :: s.pushes }
  -- The heartbeat interval is read after the document. No other part of the message depends on it.
  | .read heartbeatSeconds =>
    match s.registry.getNodeSettings id with
    | .ok (some settings) => { s with
        pushes := .loaded ⟨settings.revision, settings, heartbeatSeconds⟩ :: s.pushes.erase .started
      }
    | _                   => s.without .started
  | .send update =>
    { s.without (.loaded update) with
      toAgent := if s.connected then s.toAgent ++ [update] else s.toAgent
    }
  | .abandon push => s.without push
  | .deliver =>
    match s.toAgent with
    | []           => s
    | update :: tl =>
      match s.agent.handleSettings update with
      | .error _         => s.drop id
      | .ok (agent, ack) => { s with agent, toAgent := tl, toCoordinator := s.toCoordinator ++ [ack] }
  | .acknowledge =>
    match s.toCoordinator with
    | []        => s
    | ack :: tl =>
      match s.registry.settingsApplied id ack.revision ack.error with
      | .error _    => s.drop id
      | .ok (_, ρ') => { s with registry := ρ', toCoordinator := tl }

-- Registration, the messages of a stream and its end take the gate of the node. An agent that opens
-- a stream no longer reads from the one before.
def Enabled : Act → Prop
  | .transact op   => op.concerns id = false
  | .register ..   => s.registration = none
  | .publish _     => s.registration.isSome
  | .refuse        => s.registration.isSome
  | .disconnect    => s.connected ∧ s.registration = none
  | .read _        => .started ∈ s.pushes
  | .send update   => .loaded update ∈ s.pushes
  | .abandon push  => push ∈ s.pushes
  | .deliver       => s.toAgent ≠ [] ∧ s.registration = none
  | .acknowledge   => s.toCoordinator ≠ [] ∧ s.registration = none
  | .edit .. | .push => True

instance decidableEnabled : ∀ act, Decidable (s.Enabled id act)
  | .transact op => inferInstanceAs (Decidable (op.concerns id = false))
  | .register .. => inferInstanceAs (Decidable (s.registration = none))
  | .publish _ | .refuse => inferInstanceAs (Decidable (s.registration.isSome))
  | .disconnect => inferInstanceAs (Decidable (s.connected ∧ s.registration = none))
  | .read _ => inferInstanceAs (Decidable (.started ∈ s.pushes))
  | .send update => inferInstanceAs (Decidable (.loaded update ∈ s.pushes))
  | .abandon push => inferInstanceAs (Decidable (push ∈ s.pushes))
  | .deliver => inferInstanceAs (Decidable (s.toAgent ≠ [] ∧ s.registration = none))
  | .acknowledge => inferInstanceAs (Decidable (s.toCoordinator ≠ [] ∧ s.registration = none))
  | .edit .. | .push => inferInstanceAs (Decidable True)

end Link

def link (id : String) : Machine Link Link.Act where
  exec    := Link.exec id
  Enabled := Link.Enabled id

instance decidableLinkEnabled {id : String} {s : Link} {act : Link.Act} :
    Decidable ((link id).Enabled s act) :=
  s.decidableEnabled id act

namespace Link

variable (id : String) (s : Link)

-- The messages that are queued for the agent or held by a push.
def underway : List SettingsUpdate :=
  s.toAgent ++ s.pushes.filterMap Push.update?

-- The agent runs on settings, or may still come to run on settings, that are newer than those that
-- the coordinator has recorded.
def Unrecorded : Prop :=
  s.registry.applied id < s.agent.revision ∨
    ∃ u ∈ s.underway, u.settings.isAcceptable ∧ s.registry.applied id < u.revision

-- The document that is stored is one that the agent accepts, and it or its acknowledgement is on its
-- way.
def Coming : Prop :=
  ∃ settings ∈ s.registry.stored id, settings.isAcceptable ∧
    (⟨settings.revision, none⟩ ∈ s.toCoordinator ∨ (∃ u ∈ s.underway, u.revision = settings.revision) ∨
      .started ∈ s.pushes)

-- No message overtakes a newer one that the agent accepts, and while the agent is ahead of what is
-- recorded the document that is stored remains one that it accepts and gets to it.
def Careful : Act → Prop
  | .send u        => s.connected → u.settings.isAcceptable → s.agent.revision ≤ u.revision ∧
    ∀ v ∈ s.toAgent, v.settings.isAcceptable → v.revision ≤ u.revision
  | .edit _ d _ _  => s.connected → d.isAcceptable ∨ ¬s.Unrecorded id
  | .abandon push  => s.connected → ¬(s.without push).Unrecorded id ∨ (s.without push).Coming id
  | .publish h     => ¬(s.published h).Unrecorded id ∨ (s.published h).Coming id
  | _              => True

instance decidableUnrecorded : Decidable (s.Unrecorded id) :=
  inferInstanceAs (Decidable (_ ∨ ∃ u ∈ s.underway, u.settings.isAcceptable ∧
    s.registry.applied id < u.revision))

instance decidableComing : Decidable (s.Coming id) :=
  inferInstanceAs (Decidable (∃ settings ∈ s.registry.stored id, settings.isAcceptable ∧
    (⟨settings.revision, none⟩ ∈ s.toCoordinator ∨ (∃ u ∈ s.underway, u.revision = settings.revision) ∨
      .started ∈ s.pushes)))

instance decidableCareful : ∀ act, Decidable (s.Careful id act)
  | .send u => inferInstanceAs (Decidable (s.connected → u.settings.isAcceptable →
      s.agent.revision ≤ u.revision ∧ ∀ v ∈ s.toAgent, v.settings.isAcceptable → v.revision ≤ u.revision))
  | .edit _ d _ _ => inferInstanceAs (Decidable (s.connected → d.isAcceptable ∨ ¬s.Unrecorded id))
  | .abandon push => inferInstanceAs (Decidable
      (s.connected → ¬(s.without push).Unrecorded id ∨ (s.without push).Coming id))
  | .publish h => inferInstanceAs (Decidable
      (¬(s.published h).Unrecorded id ∨ (s.published h).Coming id))
  | .transact _ | .register .. | .refuse | .disconnect | .push | .read _ | .deliver | .acknowledge =>
    inferInstanceAs (Decidable True)

-- The document that was stored under a revision.
def document (revision : Int) : Option NodeSettings :=
  s.history.find? (·.revision = revision)

-- The agent runs on the settings of the revision that is recorded as applied. Without any it runs on
-- those that it was started with.
def Agrees (capacity : Nat) : Prop :=
  match s.agent.localSettings with
  | none                      => s.registry.applied id = 0 ∧ s.agent = .boot capacity
  | some (revision, settings) => revision = s.registry.applied id ∧ s.agent.settings = settings ∧
    s.document revision = some settings

-- No push, settings message or acknowledgement is in flight.
def AtRest : Prop :=
  s.registration = none ∧ s.pushes = [] ∧ s.toAgent = [] ∧ s.toCoordinator = []

variable {id s}

section Invariant

-- A message carries a document that was stored.
structure Known (history : List NodeSettings) (u : SettingsUpdate) : Prop where
  mem      : u.settings ∈ history
  revision : u.settings.revision = u.revision

def Precedes (u v : SettingsUpdate) : Prop :=
  u.settings.isAcceptable → v.settings.isAcceptable → u.revision ≤ v.revision

-- The agent runs on a document that was stored, or on what it was started with.
def Runs (capacity : Nat) (history : List NodeSettings) (agent : NodeAgent) : Prop :=
  match agent.localSettings with
  | none                      => agent = .boot capacity
  | some (revision, settings) => agent.settings = settings ∧ settings.revision = revision ∧ settings ∈ history

structure Tracked (id : String) (capacity : Nat) (s : Link) : Prop where
  recorded : Registry.Recorded id s.registry s.history
  known    : ∀ u ∈ s.underway, Known s.history u
  opening  : ∀ r ∈ s.registration, r.desiredSettings ∈ s.history ∧
    s.agent.revision ≤ r.desiredSettings.revision
  active   : Runs capacity s.history s.agent
  acks     : ∀ a ∈ s.toCoordinator, a.error = none → a.revision ≤ s.agent.revision
  ordered  : s.toAgent.Pairwise Precedes
  ahead    : ∀ u ∈ s.toAgent, u.settings.isAcceptable → s.agent.revision ≤ u.revision
  applied  : s.registry.applied id ≤ s.agent.revision
  kept     : s.connected → s.Unrecorded id → s.Coming id

variable {capacity : Nat} {u : SettingsUpdate} {p : Push}

theorem mem_underway : u ∈ s.underway ↔ u ∈ s.toAgent ∨ .loaded u ∈ s.pushes := by
  have hp : (∃ p ∈ s.pushes, p.update? = some u) ↔ .loaded u ∈ s.pushes := by
    constructor
    case mp =>
      rintro ⟨_ | u, hp, ⟨⟩⟩
      exact hp
    case mpr => exact fun hp => ⟨_, hp, rfl⟩
  rw [underway, List.mem_append, List.mem_filterMap, hp]

theorem mem_underway_without (h : u ∈ (s.without p).underway) : u ∈ s.underway := by
  rw [mem_underway] at h ⊢
  exact h.imp_right List.mem_of_mem_erase

theorem Known.mono {history history' : List NodeSettings} (h : Known history u)
    (hs : ∀ d ∈ history, d ∈ history') : Known history' u :=
  ⟨hs _ h.mem, h.revision⟩

theorem Runs.mono {history history' : List NodeSettings} {agent : NodeAgent}
    (h : Runs capacity history agent) (hs : ∀ d ∈ history, d ∈ history') :
    Runs capacity history' agent := by
  unfold Runs at h ⊢
  split
  case h_1 he => simpa [he] using h
  case h_2 he =>
    simp only [he] at h
    exact ⟨h.left, h.right.left, hs _ h.right.right⟩

-- The agent is never ahead of the registry.
theorem Runs.revision_le {ρ : Registry} {history : List NodeSettings} {agent : NodeAgent} {d : NodeSettings}
    (h : Runs capacity history agent) (hr : Registry.Recorded id ρ history) (hd : ρ.stored id = some d) :
    agent.revision ≤ d.revision := by
  unfold Runs at h
  unfold NodeAgent.revision
  split at h
  case h_1 he =>
    obtain ⟨row, hg, hm⟩ := Option.bind_eq_some_iff.mp hd
    obtain ⟨_, _, rfl⟩ := Option.map_eq_some_iff.mp hm
    simpa [he] using (hr.settled.positive row (Table.mem_of_get? hg)).le
  case h_2 he =>
    obtain ⟨_, hv, hm⟩ := h
    simpa [he, ← hv] using hr.le_of_mem hd hm

-- What the agent does with a message that it handles.
theorem handleSettings_cases {agent agent' : NodeAgent} {ack : SettingsApplied}
    (hh : agent.handleSettings u = .ok (agent', ack)) :
    (u.settings.isAcceptable ∧ agent'.settings = { u.settings with revision := u.revision } ∧
      agent'.localSettings = some (u.revision, u.settings) ∧ ack = ⟨u.revision, none⟩) ∨
    (u.settings.isAcceptable = false ∧ agent' = agent ∧ ∃ e, ack = ⟨u.revision, some e⟩) := by
  simp only [NodeAgent.handleSettings] at hh
  repeat' split at hh
  case _ => cases hh
  case _ e he =>
    cases hh
    exact .inr ⟨by simp [NodeSettings.isAcceptable, he, Except.isOk, Except.toBool], rfl, e, rfl⟩
  case _ he =>
    cases hh
    exact .inl ⟨by simp [NodeSettings.isAcceptable, he, Except.isOk, Except.toBool], rfl, rfl, rfl⟩

theorem Tracked.initial : Tracked id capacity (.initial capacity) where
  recorded := .initial
  known    := List.forall_mem_nil _
  opening  := by rintro r ⟨⟩
  active   := rfl
  acks     := List.forall_mem_nil _
  ordered  := .nil
  ahead    := List.forall_mem_nil _
  applied  := le_rfl
  kept     := by rintro ⟨⟩

namespace Tracked

variable (h : Tracked id capacity s)
include h

-- Nothing that is underway is newer than the document that is stored.
theorem le_stored {d : NodeSettings} (hd : s.registry.stored id = some d) (hu : u ∈ s.underway) :
    u.revision ≤ d.revision := by
  have hk := h.known u hu
  exact hk.revision ▸ h.recorded.le_of_mem hd hk.mem

theorem settings_eq {d : NodeSettings} (hd : s.registry.stored id = some d) (hu : u ∈ s.underway)
    (he : u.revision = d.revision) : u.settings = d := by
  have hk := h.known u hu
  exact h.recorded.unique _ hk.mem _ (h.recorded.mem_of_stored hd) (hk.revision.trans he)

-- What is recorded as applied does not change without an acknowledgement.
theorem of_node {ρ : Registry} (hs : ρ.Settled) (hn : ρ.node id = s.registry.node id) :
    Tracked id capacity { s with registry := ρ } where
  recorded := h.recorded.of_documents hs (congrArg Prod.fst hn)
  known    := h.known
  opening  := h.opening
  active   := h.active
  acks     := h.acks
  ordered  := h.ordered
  ahead    := h.ahead
  applied  := (Registry.applied_congr hn).trans_le h.applied
  kept hc hu := by
    have hk := h.kept hc
    simp only [Unrecorded, Coming, Registry.applied_congr hn, Registry.stored_congr hn] at hu hk ⊢
    exact hk hu

theorem transact {op : RegistryOp} (ho : op.concerns id = false) :
    Tracked id capacity { s with registry := s.registry.exec op } :=
  h.of_node (Registry.exec_settled h.recorded.settled op).left (Registry.node_exec ho)

theorem drop : Tracked id capacity (s.drop id) := by
  have ht : Tracked id capacity { s with registry := s.registry.exec (.disconnectAgent id) } :=
    h.transact rfl
  refine ⟨ht.recorded, fun u hu => ?_, ht.opening, ht.active, List.forall_mem_nil _, .nil,
    List.forall_mem_nil _, ht.applied, by rintro ⟨⟩⟩
  rw [mem_underway] at hu
  exact h.known u <| mem_underway.mpr <| hu.imp_left fun hm => absurd hm List.not_mem_nil

theorem publish (heartbeatSeconds : Nat)
    (hc : ¬(s.published heartbeatSeconds).Unrecorded id ∨ (s.published heartbeatSeconds).Coming id) :
    Tracked id capacity (s.published heartbeatSeconds) := by
  have hk : (s.published heartbeatSeconds).Unrecorded id → (s.published heartbeatSeconds).Coming id :=
    fun hu => hc.resolve_left fun hn => hn hu
  unfold published at hk ⊢
  split at hk
  case h_1 => exact h
  case h_2 r hr =>
    obtain ⟨hm, hl⟩ := h.opening r hr
    refine ⟨h.recorded, fun u hu => ?_, by rintro r ⟨⟩, h.active, List.forall_mem_nil _, ?_, ?_, h.applied,
      fun _ => hk⟩
    case refine_1 =>
      rcases mem_underway.mp hu with hu | hu
      case inl =>
        obtain rfl := List.mem_singleton.mp hu
        exact ⟨hm, rfl⟩
      case inr => exact h.known u <| mem_underway.mpr <| .inr hu
    case refine_2 => exact List.pairwise_singleton _ _
    case refine_3 => exact List.forall_mem_singleton.mpr fun _ => hl

theorem edit {revision new : Int} {d : NodeSettings} {token : String} {now : Time} {ρ : Registry}
    (hu : s.registry.updateSettings (.node id) revision (some d) token now = .ok (new, ρ))
    (hc : s.connected → d.isAcceptable ∨ ¬s.Unrecorded id) :
    Tracked id capacity { s with
      registry := ρ
      pushes   := .started :: s.pushes
      history  := { d with revision := new } :: s.history
    } := by
  have hm : ∀ d' ∈ s.history, d' ∈ { d with revision := new } :: s.history := fun _ => .tail _
  have ⟨hs, hr⟩ := h.recorded.edit hu
  have ha := (Registry.updateSettings_node hu).right.right.right.left
  refine ⟨hr, fun u hx => (h.known u hx).mono hm, fun r hr => ?_, h.active.mono hm, h.acks, h.ordered, h.ahead,
    ha.trans_le h.applied, fun hn hx => ?_⟩
  case refine_1 => exact (h.opening r hr).imp_left (hm _)
  case refine_2 =>
    simp only [Unrecorded, ha] at hx
    have hd := (hc hn).resolve_right fun hn => hn hx
    exact ⟨_, hs, hd, .inr <| .inr <| .head _⟩

theorem register {hostname : String} {labels : List (String × String)} {c running : Nat} {now : Time}
    {registration : AgentRegistration} {ρ : Registry}
    (hu : s.registry.upsertAgent id hostname labels c running now = .ok (registration, ρ)) :
    Tracked id capacity { s with
      registry     := ρ
      registration := some registration
      history      := registration.desiredSettings :: s.history
    } := by
  have hm : ∀ d ∈ s.history, d ∈ registration.desiredSettings :: s.history := fun _ => .tail _
  have hr := h.recorded.register hu
  obtain ⟨hs, hd, ha, _⟩ := Registry.upsertAgent_node hu
  refine ⟨hr, fun u hx => (h.known u hx).mono hm, ?_, h.active.mono hm, h.acks, h.ordered, h.ahead,
    ha.trans_le h.applied, fun hn hx => ?_⟩
  case refine_1 =>
    rintro r ⟨⟩
    exact ⟨.head _, (h.active.mono hm).revision_le hr hs⟩
  case refine_2 =>
    simp only [Unrecorded, ha] at hx
    obtain ⟨d, hd', hx⟩ := h.kept hn hx
    refine ⟨d, ?_, hx⟩
    rcases hd with hd | hd
    case inl => simp [Registry.stored, hd] at hd'
    case inr => exact hd.trans hd'

theorem of_pushes {ps : List Push} (hk : ∀ u, .loaded u ∈ ps → Known s.history u)
    (hc : s.connected → ({ s with pushes := ps } : Link).Unrecorded id →
      ({ s with pushes := ps } : Link).Coming id) : Tracked id capacity { s with pushes := ps } where
  recorded   := h.recorded
  known u hu := (mem_underway.mp hu).elim (fun hu => h.known u <| mem_underway.mpr <| .inl hu) (hk u)
  opening    := h.opening
  active     := h.active
  acks       := h.acks
  ordered    := h.ordered
  ahead      := h.ahead
  applied    := h.applied
  kept       := hc

theorem known_of_mem (hp : .loaded u ∈ s.pushes) : Known s.history u :=
  h.known u <| mem_underway.mpr <| .inr hp

theorem push : Tracked id capacity { s with pushes := .started :: s.pushes } := by
  refine h.of_pushes (fun u hu => ?_) fun hc hu => ?_
  case refine_1 =>
    rcases List.mem_cons.mp hu with hu | hu
    case inl => cases hu
    case inr => exact h.known_of_mem hu
  case refine_2 =>
    obtain ⟨d, hd, ha, hx⟩ := h.kept hc hu
    exact ⟨d, hd, ha, hx.imp_right <| .imp_right <| .tail _⟩

-- A push that is over.
theorem without (hc : s.connected → ¬(s.without p).Unrecorded id ∨ (s.without p).Coming id) :
    Tracked id capacity (s.without p) :=
  h.of_pushes (fun _ hu => h.known_of_mem <| List.mem_of_mem_erase hu)
    fun hn hu => (hc hn).resolve_left fun hn => hn hu

theorem read (heartbeatSeconds : Nat) : Tracked id capacity (s.exec id (.read heartbeatSeconds)) := by
  simp only [exec]
  split
  case h_1 d hd =>
    have hd := Registry.stored_of_getNodeSettings hd
    have hm {u} (hu : .loaded u ∈ .loaded ⟨d.revision, d, heartbeatSeconds⟩ :: s.pushes.erase .started) :
        u = ⟨d.revision, d, heartbeatSeconds⟩ ∨ .loaded u ∈ s.pushes := by
      rcases List.mem_cons.mp hu with he | hu
      case inl =>
        cases he
        exact .inl rfl
      case inr => exact .inr <| List.mem_of_mem_erase hu
    refine h.of_pushes (fun u hu => ?_) fun hc hx => ?_
    case refine_1 =>
      rcases hm hu with rfl | hu
      case inl => exact ⟨h.recorded.mem_of_stored hd, rfl⟩
      case inr => exact h.known_of_mem hu
    case refine_2 =>
      -- Whatever was unrecorded, the push now holds the document that is stored.
      have ha : d.isAcceptable := by
        by_contra hn
        have hu : s.Unrecorded id := by
          refine hx.imp_right fun ⟨u, hu, ha, hl⟩ => ⟨u, ?_, ha, hl⟩
          rw [mem_underway] at hu ⊢
          refine hu.imp_right fun hu => (hm hu).resolve_left ?_
          rintro rfl
          exact hn ha
        obtain ⟨d', hd', ha, _⟩ := h.kept hc hu
        rw [Option.mem_def, hd, Option.some.injEq] at hd'
        exact hn <| hd' ▸ ha
      exact ⟨d, hd, ha, .inr <| .inl ⟨_, mem_underway.mpr <| .inr <| .head _, rfl⟩⟩
  case h_2 hn =>
    refine h.without fun hc => .inl fun hu => ?_
    obtain ⟨d, hd, _⟩ := h.kept hc <| hu.imp_right fun ⟨u, hu, hx⟩ => ⟨u, mem_underway_without hu, hx⟩
    exact hn d <| Registry.getNodeSettings_of_stored hd

theorem send (hu : .loaded u ∈ s.pushes) (hc : s.connected → u.settings.isAcceptable →
      s.agent.revision ≤ u.revision ∧ ∀ v ∈ s.toAgent, v.settings.isAcceptable → v.revision ≤ u.revision) :
    Tracked id capacity (s.exec id (.send u)) := by
  simp only [exec]
  cases hn : s.connected
  case false =>
    simp only [Bool.false_eq_true, if_false]
    exact h.without fun ht => absurd (hn ▸ ht) Bool.false_ne_true
  case true =>
    simp only [if_true]
    have hm {v} (hv : v ∈ ({ s.without (.loaded u) with toAgent := s.toAgent ++ [u] } : Link).underway) :
        v ∈ s.underway := by
      rw [mem_underway] at hv ⊢
      rcases hv with hv | hv
      case inr => exact .inr <| List.mem_of_mem_erase hv
      case inl =>
        rcases List.mem_append.mp hv with hv | hv
        case inl => exact .inl hv
        case inr => exact .inr <| List.mem_singleton.mp hv ▸ hu
    refine ⟨h.recorded, fun v hv => h.known v (hm hv), h.opening, h.active, h.acks, ?_, ?_, h.applied,
      fun _ hx => ?_⟩
    case refine_1 =>
      refine List.pairwise_append.mpr ⟨h.ordered, List.pairwise_singleton _ _, fun v hv w hw hva hwa => ?_⟩
      obtain rfl := List.mem_singleton.mp hw
      exact (hc hn hwa).right v hv hva
    case refine_2 =>
      refine List.forall_mem_append.mpr ⟨h.ahead, List.forall_mem_singleton.mpr fun ha => ?_⟩
      exact (hc hn ha).left
    case refine_3 =>
      obtain ⟨d, hd, ha, hx⟩ := h.kept hn <| hx.imp_right fun ⟨v, hv, hx⟩ => ⟨v, hm hv, hx⟩
      refine ⟨d, hd, ha, ?_⟩
      rcases hx with hx | ⟨v, hv, he⟩ | hx
      case inl => exact .inl hx
      case inr.inr => exact .inr <| .inr <| (List.mem_erase_of_ne <| by rintro ⟨⟩).mpr hx
      case inr.inl =>
        refine .inr <| .inl ⟨v, ?_, he⟩
        rw [mem_underway] at hv ⊢
        rcases hv with hv | hv
        case inl => exact .inl <| List.mem_append_left _ hv
        case inr =>
          by_cases he : v = u
          case pos => exact .inl <| List.mem_append_right _ <| List.mem_singleton.mpr he
          case neg => exact .inr <| (List.mem_erase_of_ne fun hx => he <| Push.loaded.inj hx).mpr hv

theorem deliver (hr : s.registration = none) : Tracked id capacity (s.exec id .deliver) := by
  simp only [exec]
  split
  case h_1 => exact h
  case h_2 u tl hq =>
    split
    case h_1 => exact h.drop
    case h_2 agent ack hh =>
      have hu : u ∈ s.toAgent := hq ▸ .head _
      have hk := h.known u <| mem_underway.mpr <| .inl hu
      have ho := h.ordered
      rw [hq, List.pairwise_cons] at ho
      have hm {v} (hv : v ∈ ({ s with toAgent := tl } : Link).underway) : v ∈ s.underway := by
        rw [mem_underway] at hv ⊢
        exact hv.imp_left fun hv => hq ▸ .tail _ hv
      have hm' {v} (hv : v ∈ s.underway) : v = u ∨ v ∈ ({ s with toAgent := tl } : Link).underway := by
        rw [mem_underway, hq, List.mem_cons, or_assoc] at hv
        exact hv.imp_right mem_underway.mpr
      rcases handleSettings_cases hh with ⟨ha, hs, hl, rfl⟩ | ⟨ha, rfl, e, rfl⟩
      case inl =>
        have hv : agent.revision = u.revision := by simp [NodeAgent.revision, hl]
        have hg : s.agent.revision ≤ agent.revision := hv ▸ h.ahead u hu ha
        refine ⟨h.recorded, fun v hv => h.known v (hm hv), by simp [hr], ?_, ?_, ho.right, ?_,
          h.applied.trans hg, fun hc hx => ?_⟩
        case refine_1 =>
          simp only [Runs, hl, hs, ← hk.revision]
          exact ⟨trivial, trivial, hk.mem⟩
        case refine_2 =>
          refine List.forall_mem_append.mpr ⟨fun a hm he => (h.acks a hm he).trans hg, ?_⟩
          exact List.forall_mem_singleton.mpr fun _ => hv.ge
        case refine_3 => exact fun v hm hva => hv ▸ ho.left v hm ha hva
        case refine_4 =>
          have hx : s.Unrecorded id := by
            refine .inr ?_
            rcases hx with hx | ⟨v, hm', hx⟩
            case inl => exact ⟨u, mem_underway.mpr <| .inl hu, ha, hv ▸ hx⟩
            case inr => exact ⟨v, hm hm', hx⟩
          obtain ⟨d, hd, hda, hx⟩ := h.kept hc hx
          refine ⟨d, hd, hda, ?_⟩
          rcases hx with hx | ⟨v, hv, he⟩ | hx
          case inl => exact .inl <| List.mem_append_left _ hx
          case inr.inr => exact .inr <| .inr hx
          case inr.inl =>
            rcases hm' hv with rfl | hv
            case inl => exact .inl <| List.mem_append_right _ <| List.mem_singleton.mpr <| he ▸ rfl
            case inr => exact .inr <| .inl ⟨v, hv, he⟩
      case inr =>
        refine ⟨h.recorded, fun v hv => h.known v (hm hv), h.opening, h.active, ?_, ho.right, ?_, h.applied,
          fun hc hx => ?_⟩
        case refine_1 =>
          exact List.forall_mem_append.mpr ⟨h.acks, List.forall_mem_singleton.mpr <| by rintro ⟨⟩⟩
        case refine_2 => exact fun v hm => h.ahead v (hq ▸ .tail _ hm)
        case refine_3 =>
          have hx : s.Unrecorded id := hx.imp_right fun ⟨v, hv, hx⟩ => ⟨v, hm hv, hx⟩
          obtain ⟨d, hd, hda, hx⟩ := h.kept hc hx
          refine ⟨d, hd, hda, ?_⟩
          rcases hx with hx | ⟨v, hv, he⟩ | hx
          case inl => exact .inl <| List.mem_append_left _ hx
          case inr.inr => exact .inr <| .inr hx
          case inr.inl =>
            -- The message that was refused is not the document that is stored.
            rcases hm' hv with rfl | hv'
            case inl =>
              rw [h.settings_eq hd hv he, hda] at ha
              cases ha
            case inr => exact .inr <| .inl ⟨v, hv', he⟩

theorem acknowledge : Tracked id capacity (s.exec id .acknowledge) := by
  simp only [exec]
  split
  case h_1 => exact h
  case h_2 ack tl hq =>
    split
    case h_1 => exact h.drop
    case h_2 outcome ρ ho =>
      obtain ⟨a, ha⟩ := Registry.settingsApplied_registered ho
      obtain ⟨d, hd⟩ := h.recorded.stored_of_registered ha
      obtain ⟨hx, _, hv⟩ := Registry.settingsApplied_node h.recorded.settled hd ho
      have hr := h.recorded.of_documents (h.recorded.settled.settingsApplied ho) (by rw [hx])
      have hn : ρ.stored id = s.registry.stored id := by simp only [Registry.stored, hx]
      have hacks : ∀ a ∈ tl, a ∈ s.toCoordinator := fun a hm => hq ▸ .tail _ hm
      refine ⟨hr, h.known, h.opening, h.active, fun a hm => h.acks a (hacks a hm), h.ordered, h.ahead, ?_,
        fun hc hu => ?_⟩
      all_goals
        by_cases he : ack.error = none ∧ d.revision = ack.revision
      case pos =>
        simp only [hv, if_pos he]
        exact h.acks ack (hq ▸ .head _) he.left
      case neg =>
        simp only [hv, if_neg he]
        exact h.applied
      case pos =>
        -- The registry has caught up with the agent.
        rw [if_pos he, ← he.right] at hv
        simp only [Unrecorded, hv] at hu
        rcases hu with hu | ⟨u, hu, _, hl⟩
        case inl => exact absurd hu (h.active.revision_le h.recorded hd).not_gt
        case inr => exact absurd hl (h.le_stored hd hu).not_gt
      case neg =>
        simp only [Unrecorded, hv, if_neg he] at hu
        obtain ⟨d', hd', hda, hx⟩ := h.kept hc hu
        refine ⟨d', hn ▸ hd', hda, hx.imp_left fun hx => ?_⟩
        rw [Option.mem_def, hd, Option.some.injEq] at hd'
        rw [hq, List.mem_cons] at hx
        refine hx.resolve_left ?_
        rintro rfl
        exact he ⟨rfl, hd' ▸ rfl⟩

end Tracked

theorem Tracked.exec {act : Act} (h : Tracked id capacity s) (he : s.Enabled id act)
    (hc : s.Careful id act) : Tracked id capacity (s.exec id act) := by
  cases act
  case transact => exact h.transact he
  case register =>
    simp only [Link.exec]
    split
    case h_1 => exact h
    case h_2 hu => exact h.register hu
  case publish heartbeatSeconds => exact h.publish heartbeatSeconds hc
  case refuse =>
    exact ⟨h.recorded, h.known, by rintro r ⟨⟩, h.active, h.acks, h.ordered, h.ahead, h.applied, h.kept⟩
  case disconnect => exact h.drop
  case edit =>
    simp only [Link.exec]
    split
    case h_1 => exact h
    case h_2 hu => exact h.edit hu hc
  case push => exact h.push
  case read heartbeatSeconds => exact h.read heartbeatSeconds
  case send => exact h.send he hc
  case abandon => exact h.without hc
  case deliver => exact h.deliver he.right
  case acknowledge => exact h.acknowledge

-- At rest nothing is on its way, so that nothing may be unrecorded.
theorem Tracked.agrees (h : Tracked id capacity s) (hc : s.connected) (hr : s.AtRest) :
    s.Agrees id capacity := by
  obtain ⟨_, hp, hq, hk⟩ := hr
  have hn : ¬s.Coming id := by
    rintro ⟨d, _, _, hx⟩
    simp [underway, hp, hq, hk] at hx
  have hv : s.agent.revision = s.registry.applied id := by
    refine le_antisymm (not_lt.mp fun hl => hn <| h.kept hc <| .inl hl) h.applied
  have ha := h.active
  unfold Runs at ha
  unfold Agrees
  split
  case h_1 he =>
    simp only [NodeAgent.revision, he, Option.elim_none] at hv ha
    exact ⟨hv.symm, ha⟩
  case h_2 revision settings he =>
    simp only [NodeAgent.revision, he, Option.elim_some] at hv ha
    obtain ⟨hs, hr, hm⟩ := ha
    refine ⟨hv, hs, ?_⟩
    rw [document, ← hr]
    exact h.recorded.find?_eq hm

-- Whatever a step does to the settings of the agent, it does not take it back.
theorem Tracked.revision_le (h : Tracked id capacity s) (act : Act) :
    s.agent.revision ≤ (s.exec id act).agent.revision := by
  cases act <;> simp only [Link.exec]
  case transact | refuse | disconnect | push | send | abandon => exact le_rfl
  case register | edit | read =>
    split
    case h_1 | h_2 => exact le_rfl
  case publish =>
    unfold published
    split
    case h_1 | h_2 => exact le_rfl
  case acknowledge =>
    repeat' split
    all_goals exact le_rfl
  case deliver =>
    split
    case h_1 => exact le_rfl
    case h_2 u tl hq =>
      split
      case h_1 => exact le_rfl
      case h_2 agent ack hh =>
        rcases handleSettings_cases hh with ⟨ha, _, hl, _⟩ | ⟨_, rfl, _⟩
        case inl => simpa [NodeAgent.revision, hl] using h.ahead u (hq ▸ .head _) ha
        case inr => exact le_rfl

theorem Tracked.of_valid {acts : List Act}
    (v : ((link id).restrict fun s act => s.Careful id act).Valid (.initial capacity) acts) :
    Tracked id capacity (((link id).restrict fun s act => s.Careful id act).run (.initial capacity) acts) :=
  v.invariant (fun _ _ h hx => h.exec hx.left hx.right) .initial

end Invariant

theorem settings_agree {id : String} {capacity : Nat} {acts : List Act}
    (v : ((link id).restrict fun s act => s.Careful id act).Valid (.initial capacity) acts) :
    let s := (link id).run (.initial capacity) acts
    (s.connected → s.AtRest → s.Agrees id capacity) ∧
      ∀ act, (link id).Enabled s act → s.agent.revision ≤ ((link id).exec s act).agent.revision :=
  have h := Tracked.of_valid v
  ⟨h.agrees, fun act _ => h.revision_le act⟩

instance decidableAtRest {s : Link} : Decidable s.AtRest :=
  inferInstanceAs (Decidable (_ ∧ _ ∧ _ ∧ _))

namespace Sample

-- A node that connects and applies its first document, and an editor that holds the lock of it.
def connected : List Act := [
  .register "host" [] 2 0 0, .publish 10, .deliver, .acknowledge,
  .transact (.acquireLock (.node "node") "admin" "token" 0)
]

-- Two documents are stored, and the second is sent and applied before the next one is stored.
def edited : List Act := connected ++ [
  .edit 1 { maxParallel := 4 } "token" 1, .read 10,
  .send ⟨2, { revision := 2, maxParallel := 4 }, 10⟩, .deliver,
  .edit 2 { maxParallel := 8 } "token" 2, .acknowledge, .read 10,
  .send ⟨3, { revision := 3, maxParallel := 8 }, 10⟩, .deliver, .acknowledge
]

-- The push that follows an update of the global settings has read the first document of the node when
-- the second is stored, and sends it when the second is sent and applied.
def overtaken : List Act := connected ++ [
  .transact (.acquireLock .global "other" "global" 0),
  .transact (.updateSettings .global 1 none "global" 1), .push, .read 10,
  .edit 1 { maxParallel := 4 } "token" 1, .read 10,
  .send ⟨2, { revision := 2, maxParallel := 4 }, 10⟩, .deliver, .acknowledge,
  .send ⟨1, { revision := 1, maxParallel := 2 }, 10⟩, .deliver, .acknowledge
]

end Sample

theorem settings_agree_edited :
    let s := (link "node").run (.initial 2) Sample.edited
    s.connected ∧ s.AtRest ∧ s.registry.applied "node" = 3 ∧ s.Agrees "node" 2 := by
  have v : ((link "node").restrict fun s act => s.Careful "node" act).Valid (.initial 2) Sample.edited := by
    decide +kernel
  obtain ⟨hc, hr, ha⟩ : ((link "node").run (.initial 2) Sample.edited).connected ∧
      ((link "node").run (.initial 2) Sample.edited).AtRest ∧
      ((link "node").run (.initial 2) Sample.edited).registry.applied "node" = 3 := by
    decide +kernel
  exact ⟨hc, hr, ha, (settings_agree v).left hc hr⟩

-- The node runs on revision 1 again, and the coordinator has recorded revision 2.
theorem newer_settings_replaced :
    (link "node").Valid (.initial 2) Sample.overtaken ∧
      let s := (link "node").run (.initial 2) Sample.overtaken
      s.connected ∧ s.AtRest ∧ s.registry.applied "node" = 2 ∧
        s.agent.localSettings = some (1, { revision := 1, maxParallel := 2 }) ∧
        s.agent.settings = { revision := 1, maxParallel := 2 } := by
  decide +kernel

end Link

end Scheduler
