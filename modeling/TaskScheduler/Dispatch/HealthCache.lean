import TaskScheduler.Health.Nodes
import TaskScheduler.Dispatch.Sessions

namespace Scheduler

namespace Store

section Views

variable (s : Store)

-- The nodes that `record_health_evidence` scores again, and whose views it returns.
def agentsToRescore (e : NewHealthEvidence) (poisonDistinctNodes : Nat) (id : Uuid) (now : Time) :
    List String :=
  match s.insertEvidence e id now with
  | .error _ => []
  | .ok s₁   =>
    let affected := s₁.healthEvidence.select (fun e' =>
      e'.isAbout e.blueprintDigest e.inputFingerprint && e'.classification.class = .ambiguous)
      |>.map (·.agentId)
    if (s₁.evaluateInput e.blueprintDigest e.inputFingerprint poisonDistinctNodes).state = .confirmed then
      (e.agentId :: affected).dedup
    else
      [e.agentId]

-- The view of a node that a transaction returns, if it does.
def view? (agentId : String) : Op → Option NodeHealthState
  | .recordHealthEvidence e nodes id order now =>
    match s.recordHealthEvidence e nodes id order now with
    | .error _    => none
    | .ok (_, s') =>
      if agentId ∈ s.agentsToRescore e nodes id now then some (s'.nodeState agentId) else none
  | .setNodeManualQuarantine agentId' quarantined now =>
    match s.setNodeManualQuarantine agentId' quarantined now with
    | .error _    => none
    | .ok (_, s') => if agentId' = agentId then some (s'.nodeState agentId) else none
  | _ => none

end Views

variable {s s' : Store} {agentId : String} {op : Op}

theorem nodeState_congr (h : s'.nodeHealth.get? agentId = s.nodeHealth.get? agentId) :
    s'.nodeState agentId = s.nodeState agentId := by
  simp only [nodeState, h]

theorem get?_of_not_mem_agentsToRescore {e : NewHealthEvidence} {nodes : Nat} {id : Uuid}
    {order : HashOrder} {now : Time} {st : InputHealthState}
    (h : s.recordHealthEvidence e nodes id order now = .ok (st, s'))
    (ha : agentId ∉ s.agentsToRescore e nodes id now) :
    s'.nodeHealth.get? agentId = s.nodeHealth.get? agentId := by
  simp only [recordHealthEvidence] at h
  split at h
  case h_1 => cases h
  case h_2 s₁ hi =>
    split at h
    case h_1 => cases h
    case h_2 s₂ hr =>
      cases h
      simp only [agentsToRescore, hi] at ha
      have nd : (if (s₁.evaluateInput e.blueprintDigest e.inputFingerprint nodes).state = .confirmed then
          (e.agentId :: (s₁.healthEvidence.select fun e' =>
            e'.isAbout e.blueprintDigest e.inputFingerprint &&
              e'.classification.class = .ambiguous).map (·.agentId)).dedup
          else [e.agentId]).Nodup := by
        split
        case isTrue => exact List.nodup_dedup _
        case isFalse => exact List.nodup_singleton _
      have hn := (rescoreNodes_rescores nd hr).right.left agentId ha
      rw [hn, ite_appendAudit_frame.nodeHealth (by simp),
        ← (insertEvidence_frame hi).nodeHealth (by simp)]
      split
      case isTrue => rw [confirmPoison_nodeHealth]; rfl
      case isFalse => rfl

-- Whatever changes the state of a node returns its view.
theorem nodeState_exec (s : Store) (agentId : String) (op : Op) :
    (s.exec op).nodeState agentId = s.nodeState agentId ∨
      s.view? agentId op = some ((s.exec op).nodeState agentId) := by
  have hs := s.exec_nodeStep agentId op
  generalize he : s.exec op = s' at hs ⊢
  cases hs
  case same h => exact .inl <| nodeState_congr h
  case added h h' => exact .inl <| by simp [nodeState, h, h', NodeHealth.initial]
  case scored e nodes id order now h =>
    subst he
    cases hr : s.recordHealthEvidence e nodes id order now
    case error => exact .inl <| by simp [Store.exec, hr]
    case ok out =>
      have hx : s.exec (.recordHealthEvidence e nodes id order now) = out.2 := by
        simp only [Store.exec, hr]
        rfl
      rw [hx]
      by_cases ha : agentId ∈ s.agentsToRescore e nodes id now
      case pos => exact .inr <| by simp [view?, hr, ha]
      case neg => exact .inl <| nodeState_congr <| get?_of_not_mem_agentsToRescore hr ha
  case set q now _ _ _ _ =>
    subst he
    cases hr : s.setNodeManualQuarantine agentId q now
    case error => exact .inl <| by simp [Store.exec, hr]
    case ok out =>
      have hx : s.exec (.setNodeManualQuarantine agentId q now) = out.2 := by
        simp only [Store.exec, hr]
        rfl
      exact .inr <| by simp [view?, hr, hx]

end Store

-- The coordinator as far as the health of one node is concerned: what a stream has read that is not
-- published yet, and the views that tasks were given and have yet to write to the session.
structure HealthCache where
  store   : Store
  session : Option AgentSession
  opening : Option NodeHealthState
  views   : List NodeHealthState

namespace HealthCache

inductive Act
  | commit (op : Op)
  | apply (view : NodeHealthState)
  | abandon (view : NodeHealthState)
  | read
  | publish (session : AgentSession)
  | refuse
  | disconnect
  | touch (session : AgentSession)

def initial : HealthCache where
  store   := .empty
  session := none
  opening := none
  views   := []

variable (agentId : String) (c : HealthCache)

-- `update_agent_health`.
def updateAgentHealth (health : NodeHealthState) : Option AgentSession :=
  c.session.map ({ · with health })

def exec : Act → HealthCache
  | .commit op => { c with
      store := c.store.exec op
      views := (c.store.view? agentId op).toList ++ c.views
    }
  | .apply view => { c with session := c.updateAgentHealth view, views := c.views.erase view }
  -- The task ends before it has written the view: its request is dropped.
  | .abandon view => { c with views := c.views.erase view }
  | .read => { c with opening := some (c.store.nodeState agentId) }
  | .publish session => { c with session := c.opening.map ({ session with health := · }), opening := none }
  | .refuse => { c with opening := none }
  | .disconnect => { c with session := none }
  -- What others write to the session.
  | .touch session => { c with session := c.session.map fun x => { session with health := x.health } }

-- A stream reads and publishes under the gate of its node.
def Enabled : Act → Prop
  | .apply view | .abandon view     => view ∈ c.views
  | .read | .disconnect             => c.opening = none
  | .publish _ | .refuse            => c.opening.isSome
  | .commit _ | .touch _            => True

instance decidableEnabled : ∀ act, Decidable (c.Enabled act)
  | .apply view | .abandon view => inferInstanceAs (Decidable (view ∈ c.views))
  | .read | .disconnect => inferInstanceAs (Decidable (c.opening = none))
  | .publish _ | .refuse => inferInstanceAs (Decidable c.opening.isSome)
  | .commit _ | .touch _ => inferInstanceAs (Decidable True)

-- The state in the store is what is written to the session, or a view of it is yet to be written.
def Careful : Act → Prop
  | .apply view   => c.session.isSome → view = c.store.nodeState agentId ∨
    c.store.nodeState agentId ∈ c.views.erase view
  | .abandon view => (∀ session ∈ c.session, session.health = c.store.nodeState agentId) ∨
    c.store.nodeState agentId ∈ c.views.erase view
  | .publish _    => c.opening = some (c.store.nodeState agentId) ∨ c.store.nodeState agentId ∈ c.views
  | _             => True

instance decidableCareful : ∀ act, Decidable (c.Careful agentId act)
  | .apply view => inferInstanceAs (Decidable (c.session.isSome → view = c.store.nodeState agentId ∨
      c.store.nodeState agentId ∈ c.views.erase view))
  | .abandon view => inferInstanceAs (Decidable
      ((∀ session ∈ c.session, session.health = c.store.nodeState agentId) ∨
        c.store.nodeState agentId ∈ c.views.erase view))
  | .publish _ => inferInstanceAs (Decidable
      (c.opening = some (c.store.nodeState agentId) ∨ c.store.nodeState agentId ∈ c.views))
  | .commit _ | .read | .refuse | .disconnect | .touch _ => inferInstanceAs (Decidable True)

-- No task is between a transaction on the health of the node and the session.
def AtRest : Prop :=
  c.opening = none ∧ c.views = []

-- The session has the state that is in the store, and a node that is quarantined there gets no
-- offer.
def Follows : Prop :=
  ∀ session ∈ c.session, session.health = c.store.nodeState agentId ∧
    ((c.store.nodeState agentId).isQuarantined → ∀ req excluded, session.isEligible req excluded = false)

end HealthCache

def healthCache (agentId : String) : Machine HealthCache HealthCache.Act where
  exec    := HealthCache.exec agentId
  Enabled := HealthCache.Enabled

instance decidableHealthCacheEnabled {agentId : String} {c : HealthCache} {act : HealthCache.Act} :
    Decidable ((healthCache agentId).Enabled c act) :=
  c.decidableEnabled act

namespace HealthCache

variable {agentId : String} {c : HealthCache}

-- The session is right, or a view that makes it right is yet to be written.
def Tracked (agentId : String) (c : HealthCache) : Prop :=
  ∀ session ∈ c.session, session.health = c.store.nodeState agentId ∨ c.store.nodeState agentId ∈ c.views

theorem Tracked.exec {act : Act} (h : Tracked agentId c) (hc : c.Careful agentId act) :
    Tracked agentId (c.exec agentId act) := by
  intro session hs
  cases act <;> simp only [HealthCache.exec] at hs ⊢
  case commit op =>
    rcases c.store.nodeState_exec agentId op with he | hv
    case inl =>
      rw [he]
      exact (h session hs).imp_right <| List.mem_append_right _
    case inr => exact .inr <| List.mem_append_left _ <| by simp [hv]
  case apply view =>
    obtain ⟨x, hx, rfl⟩ := Option.map_eq_some_iff.mp hs
    exact (hc (by simp [hx])).imp_left id
  case abandon => exact hc.imp_left fun hc => hc session hs
  case read | refuse => exact h session hs
  case publish =>
    obtain ⟨health, ho, rfl⟩ := Option.map_eq_some_iff.mp hs
    refine hc.imp_left fun hc => ?_
    exact Option.some.inj <| ho.symm.trans hc
  case disconnect => cases hs
  case touch =>
    obtain ⟨x, hx, rfl⟩ := Option.map_eq_some_iff.mp hs
    exact h x hx

theorem Tracked.of_valid {acts : List Act}
    (v : ((healthCache agentId).restrict fun c act => c.Careful agentId act).Valid .initial acts) :
    Tracked agentId (((healthCache agentId).restrict fun c act => c.Careful agentId act).run .initial acts) :=
  v.invariant (fun _ _ h hx => h.exec hx.right) (by rintro session ⟨⟩)

theorem health_followed {agentId : String} {acts : List Act}
    (v : ((healthCache agentId).restrict fun c act => c.Careful agentId act).Valid .initial acts) :
    let c := (healthCache agentId).run .initial acts
    c.AtRest → c.Follows agentId := by
  intro c hr session hs
  have he : session.health = c.store.nodeState agentId := by
    refine (Tracked.of_valid v session hs).resolve_right fun hm => ?_
    have hv : c.views = [] := hr.right
    exact List.not_mem_nil (hv ▸ hm)
  refine ⟨he, fun hq req excluded => ?_⟩
  have ha : session.health.acceptsNewWork = false := by
    rw [← he] at hq
    cases hh : session.health
    case autoQuarantined | manualQuarantined => rfl
    case healthy | suspect | probation =>
      rw [hh] at hq
      cases hq
  simp [AgentSession.isEligible, AgentSession.suits, ha]

namespace Sample

def session : AgentSession where
  agentId                 := "node"
  connectionId            := 0
  isOpen                  := true
  enabled                 := true
  labels                  := []
  capacity                := 2
  appliedSettingsRevision := 1
  running                 := 0
  health                  := .healthy
  lastAssigned            := 0
  environmentBindings     := []
  secretFileBindings      := []

-- A node connects and is quarantined.
def quarantined : List Act := [
  .commit (.upsertAgent "node" "host" [] 2 0 0), .read, .publish session,
  .commit (.setNodeManualQuarantine "node" true 1), .apply .manualQuarantined
]

-- A node is quarantined while it connects: the stream has read its health before, and publishes the
-- session after the task has looked for it.
def overtaken : List Act := [
  .commit (.upsertAgent "node" "host" [] 2 0 0), .read,
  .commit (.setNodeManualQuarantine "node" true 1), .apply .manualQuarantined, .publish session
]

end Sample

theorem health_followed_quarantined :
    let c := (healthCache "node").run .initial Sample.quarantined
    c.AtRest ∧ c.session.isSome ∧ c.store.nodeState "node" = .manualQuarantined ∧ c.Follows "node" := by
  have v : ((healthCache "node").restrict fun c act => c.Careful "node" act).Valid .initial
      Sample.quarantined := by
    decide +kernel
  obtain ⟨hr, hs, hn⟩ : (((healthCache "node").run .initial Sample.quarantined).opening = none ∧
      ((healthCache "node").run .initial Sample.quarantined).views = []) ∧
      ((healthCache "node").run .initial Sample.quarantined).session.isSome ∧
      ((healthCache "node").run .initial Sample.quarantined).store.nodeState "node" =
        .manualQuarantined := by
    decide +kernel
  exact ⟨hr, hs, hn, health_followed v hr⟩

-- The node is quarantined in the store, and it is given runs.
theorem quarantined_node_eligible :
    (healthCache "node").Valid .initial Sample.overtaken ∧
      let c := (healthCache "node").run .initial Sample.overtaken
      c.opening = none ∧ c.views = [] ∧ c.store.nodeState "node" = .manualQuarantined ∧
        ∃ session ∈ c.session, session.health = .healthy ∧ session.isEligible ⟨[], []⟩ [] := by
  decide +kernel

end HealthCache

end Scheduler
