import TaskScheduler.Health.Poisoning
import TaskScheduler.Store.Frames

namespace Scheduler

-- The row that an observation is stored as.
def NewHealthEvidence.row (e : NewHealthEvidence) (id : Uuid) (now : Time) : HealthEvidence where
  id
  attemptId         := e.attemptId
  runId             := e.runId
  scheduleId        := e.scheduleId
  agentId           := e.agentId
  blueprintDigest   := e.blueprintDigest
  inputFingerprint  := e.inputFingerprint
  classification    := e.classification
  diagnostic        := e.diagnostic
  nodeWasHealthy    := e.nodeWasHealthy
  clusterSuppressed := e.clusterSuppressed
  retracted         := false
  occurredAt        := e.occurredAt
  createdAt         := now

-- The ambiguous evidence about an input, which its confirmation takes back.
def HealthEvidence.isAmbiguous (digest fingerprint : String) (e : HealthEvidence) : Bool :=
  e.isAbout digest fingerprint && e.classification.class = .ambiguous

namespace Store

variable {s s' s₁ : Store} {e : NewHealthEvidence} {nodes : Nat} {id : Uuid} {order : HashOrder}
variable {now : Time} {st : InputHealthState} {digest fingerprint : String}

-- The attempt has been classified.
def isClassified (s : Store) (attemptId : Uuid) : Bool :=
  s.healthEvidence.rows.any (·.attemptId = some attemptId)

-- Evidence is added, or ignored because its attempt already has some.
theorem insertEvidence_cases (h : s.insertEvidence e id now = .ok s₁) :
    s₁ = s ∨ ∃ healthEvidence, (∀ a ∈ e.attemptId, s.isClassified a = false) ∧
      s.healthEvidence.insert (e.row id now) = some healthEvidence ∧
      s₁ = { s with healthEvidence }.appendAudit (.run e.runId) .healthEvidenceRecorded := by
  simp only [insertEvidence] at h
  split at h
  case isTrue =>
    cases h
    exact .inl rfl
  case isFalse hn =>
    split at h
    case h_1 =>
      cases h
      exact .inl rfl
    case h_2 healthEvidence hi =>
      split at h
      case isTrue => contradiction
      case isFalse =>
        cases h
        refine .inr ⟨healthEvidence, fun a ha => ?_, hi, rfl⟩
        cases ha : e.attemptId <;> simp_all [isClassified]

theorem insertEvidence_classified {a : Uuid} (ha : e.attemptId = some a) (hc : s.isClassified a)
    (h : s.insertEvidence e id now = .ok s₁) : s₁ = s := by
  cases insertEvidence_cases h
  case inl h => exact h
  case inr h =>
    have ⟨_, hn, _⟩ := h
    have hn := hn a ha
    simp [hc] at hn

theorem mem_of_insertEvidence {e' : HealthEvidence} (h : s.insertEvidence e id now = .ok s₁)
    (hm : e' ∈ s.healthEvidence) : e' ∈ s₁.healthEvidence := by
  cases insertEvidence_cases h
  case inl h => exact h ▸ hm
  case inr h =>
    have ⟨_, _, hi, hs⟩ := h
    rw [hs]
    exact (Table.mem_of_insert hi).mpr <| .inl hm

theorem eq_row_of_insertEvidence {e' : HealthEvidence} (h : s.insertEvidence e id now = .ok s₁)
    (hm : e' ∈ s₁.healthEvidence) : e' ∈ s.healthEvidence ∨ e' = e.row id now := by
  cases insertEvidence_cases h
  case inl h => exact .inl <| h ▸ hm
  case inr h =>
    have ⟨_, _, hi, hs⟩ := h
    rw [hs] at hm
    exact (Table.mem_of_insert hi).mp hm

-- What recording an observation did, where `s₁` is the store with the new evidence.
structure Recorded (s : Store) (e : NewHealthEvidence) (nodes : Nat) (id : Uuid) (order : HashOrder)
    (now : Time) (s₁ : Store) (st : InputHealthState) (s' : Store) : Prop where
  inserted : s.insertEvidence e id now = .ok s₁
  state    : st = (s₁.evaluateInput e.blueprintDigest e.inputFingerprint nodes).state
  core     : s'.core =
    if st = .confirmed then s.core.poison (s₁.hasEvidence e.blueprintDigest e.inputFingerprint)
    else s.core
  evidence : s'.healthEvidence = s₁.healthEvidence.update
    (fun e' => st = .confirmed && e'.isAmbiguous e.blueprintDigest e.inputFingerprint)
    fun e' => { e' with retracted := true }
  inputs   : s'.inputHealth = (s₁.upsertInputHealth e.blueprintDigest e.inputFingerprint
    (s₁.evaluateInput e.blueprintDigest e.inputFingerprint nodes) now).inputHealth
  scored   : ∃ s₂ agents, agents.Nodup ∧ s₂.healthEvidence = s'.healthEvidence ∧
    s₂.nodeHealth = s.nodeHealth ∧ s₂.agents = s.agents ∧ rescoreNodes order now s₂ agents = .ok s'

theorem Recorded.attempts (h : s.Recorded e nodes id order now s₁ st s') : s'.attempts = s.attempts := by
  have hc : s'.attempts = _ := congrArg Core.attempts h.core
  rw [hc]
  split <;> rfl

theorem confirmPoison_evidence : (s.confirmPoison digest fingerprint).healthEvidence =
    s.healthEvidence.update (·.isAmbiguous digest fingerprint) fun e => { e with retracted := true } :=
  (reconcileConfirmedCollectionItems_frame.healthEvidence (by simp)).trans rfl

theorem confirmPoison_inputHealth : (s.confirmPoison digest fingerprint).inputHealth = s.inputHealth :=
  (reconcileConfirmedCollectionItems_frame.inputHealth (by simp)).trans rfl

theorem confirmPoison_nodeHealth : (s.confirmPoison digest fingerprint).nodeHealth = s.nodeHealth :=
  (reconcileConfirmedCollectionItems_frame.nodeHealth (by simp)).trans rfl

theorem confirmPoison_agents : (s.confirmPoison digest fingerprint).agents = s.agents :=
  (reconcileConfirmedCollectionItems_frame.agents (by simp)).trans rfl

theorem ite_appendAudit_frame {c : Prop} [Decidable c] {entity event} :
    Frame [.auditEvents] s (if c then s else s.appendAudit entity event) := by
  split <;> rfl

theorem recorded (h : s.recordHealthEvidence e nodes id order now = .ok (st, s')) :
    ∃ s₁, s.Recorded e nodes id order now s₁ st s' := by
  have ⟨s₁, hi, hs, hc⟩ := recordHealthEvidence_core h
  simp only [recordHealthEvidence, hi] at h
  split at h
  case h_1 => contradiction
  case h_2 hr =>
    cases h
    have hi' := insertEvidence_frame hi
    have hr' := rescoreNodes_frame hr
    refine ⟨s₁, hi, hs, hc, ?_, ?_, _, _, ?_, (hr'.healthEvidence (by simp)).symm, ?_, ?_, hr⟩
    case refine_1 =>
      rw [hr'.healthEvidence (by simp), ite_appendAudit_frame.healthEvidence (by simp)]
      split
      case isTrue hs => simp [hs, confirmPoison_evidence, upsertInputHealth]
      case isFalse hs => exact (Table.update_eq_self <| by simp [hs]).symm
    case refine_2 =>
      rw [hr'.inputHealth (by simp), ite_appendAudit_frame.inputHealth (by simp)]
      split
      case isTrue => exact confirmPoison_inputHealth
      case isFalse => rfl
    case refine_3 =>
      split
      case isTrue => exact List.nodup_dedup _
      case isFalse => exact List.nodup_singleton _
    case refine_4 =>
      rw [ite_appendAudit_frame.nodeHealth (by simp), ← hi'.nodeHealth (by simp)]
      split
      case isTrue => exact confirmPoison_nodeHealth
      case isFalse => rfl
    case refine_5 =>
      rw [ite_appendAudit_frame.agents (by simp), ← hi'.agents (by simp)]
      split
      case isTrue => exact confirmPoison_agents
      case isFalse => rfl

end Store

end Scheduler
