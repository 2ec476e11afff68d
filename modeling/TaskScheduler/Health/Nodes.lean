import TaskScheduler.Health.Evidence
import TaskScheduler.Health.Scoring
import TaskScheduler.Coordinator.Quarantine

namespace Scheduler

namespace NodeHealthObservation

variable {l : List NodeHealthObservation} {o : NodeHealthObservation} {now : Time}

-- Scoring selects from the observations that it was given.
theorem mem_of_recent {order : HashOrder} (h : o ∈ recent order l now) :
    o ∈ l ∧ o.isScored (now - .minutes 15) := by
  exact List.mem_filter.mp <| window_recent.mem h

end NodeHealthObservation

section Evaluation

open NodeHealthObservation

variable {order : HashOrder} {obs : List NodeHealthObservation} {now : Time}

-- A node is only quarantined for failures of several inputs.
theorem evaluateNodeHealth_autoQuarantine
    (h : (evaluateNodeHealth order obs now).decision = .autoQuarantine) :
    ∃ failures : List NodeHealthObservation,
      (∀ o ∈ failures,
        o ∈ obs ∧ o.isScored (now - .minutes 15) ∧ o.classification.class.isFailure) ∧
      (3 ≤ distinctInputs failures ∧ 2 ≤ distinctSchedules failures ∨
        6 ≤ distinctInputs failures) := by
  let failures := (recent order obs now).filter (·.classification.class.isFailure)
  let strong := failures.filter fun o =>
    now - .minutes 5 ≤ o.occurredAt && o.classification.class = .strongNodeLocal
  have hf (o) (ho : o ∈ failures) :
      o ∈ obs ∧ o.isScored (now - .minutes 15) ∧ o.classification.class.isFailure := by
    have ⟨ho, hc⟩ := List.mem_filter.mp ho
    have ⟨ho, hs⟩ := mem_of_recent ho
    exact ⟨ho, hs, hc⟩
  have decided {q u : Bool} (h : (if q then NodeHealthDecision.autoQuarantine
      else if u then .suspect else .healthy) = .autoQuarantine) : q := by
    cases q <;> cases u <;> simp_all
  cases Bool.or_eq_true_iff.mp <| decided h
  case inl hn =>
    refine ⟨failures, hf, ?_⟩
    have hn := (Bool.and_eq_true_iff.mp <| (Bool.and_eq_true_iff.mp hn).left).right
    have hn : (if 2 ≤ distinctSchedules failures then 4 else 6) ≤ distinctInputs failures :=
      of_decide_eq_true hn
    split at hn
    case isTrue hs => exact .inl ⟨by omega, hs⟩
    case isFalse => exact .inr hn
  case inr hs =>
    have ⟨h₁, h₂⟩ := Bool.and_eq_true_iff.mp hs
    refine ⟨strong, fun o ho => hf o (List.mem_filter.mp ho).left, .inl ⟨?_, ?_⟩⟩
    · exact of_decide_eq_true h₁
    · exact of_decide_eq_true h₂

theorem evaluateNodeHealth_healthy (h : ∀ o ∈ obs, o.classification.class.isFailure = false) :
    (evaluateNodeHealth order obs now).decision = .healthy := by
  have hf : (recent order obs now).filter (·.classification.class.isFailure) = [] := by
    apply List.filter_eq_nil_iff.mpr
    intro o ho
    simp [h o (mem_of_recent ho).left]
  simp [evaluateNodeHealth, hf, distinctInputs]

end Evaluation

-- An infrastructure failure that counts against a node.
def HealthEvidence.isFailureOf (agentId : String) (since : Time) (e : HealthEvidence) : Bool :=
  e.agentId = agentId && since ≤ e.occurredAt && e.classification.class.isFailure &&
    !e.retracted && !e.clusterSuppressed

def HealthEvidence.isSuccessOf (agentId : String) (since : Time) (e : HealthEvidence) : Bool :=
  e.agentId = agentId && since ≤ e.occurredAt && e.classification.class = .functional &&
    !e.retracted && !e.clusterSuppressed

def distinctInputs (es : List HealthEvidence) : Nat :=
  (es.map (·.inputFingerprint)).dedup.length

def distinctSchedules (es : List HealthEvidence) : Nat :=
  (es.map (·.scheduleId)).dedup.length

def HealthEvidence.nodeObservation (e : HealthEvidence) : NodeHealthObservation where
  scheduleId        := e.scheduleId
  inputFingerprint  := e.inputFingerprint
  occurredAt        := e.occurredAt
  classification    := e.classification
  retracted         := e.retracted
  clusterSuppressed := e.clusterSuppressed

-- The time from which on evidence is considered.
def NodeHealth.since (n : NodeHealth) (now : Time) : Time :=
  if n.state = .probation then n.transitionedAt else now - .minutes 15

def NodeHealthState.isQuarantined : NodeHealthState → Bool
  | autoQuarantined | manualQuarantined => true
  | _                                   => false

namespace Store

variable {s s' s₁ : Store} {agentId a : String} {since now : Time} {order : HashOrder} {op : Op}

def failuresOf (s : Store) (agentId : String) (since : Time) : List HealthEvidence :=
  s.healthEvidence.select (·.isFailureOf agentId since)

def successesOf (s : Store) (agentId : String) (since : Time) : List HealthEvidence :=
  s.healthEvidence.select (·.isSuccessOf agentId since)

-- Failures of three inputs in two schedules, or of six inputs.
def Diverse (s : Store) (agentId : String) (since : Time) : Prop :=
  3 ≤ distinctInputs (s.failuresOf agentId since) ∧
    2 ≤ distinctSchedules (s.failuresOf agentId since) ∨
  6 ≤ distinctInputs (s.failuresOf agentId since)

-- A node that was never scored is healthy.
def nodeState (s : Store) (agentId : String) : NodeHealthState :=
  (s.nodeHealth.get? agentId).elim .healthy (·.state)

def nodeRow (s : Store) (agentId : String) (now : Time) : NodeHealth :=
  (s.nodeHealth.get? agentId).getD (.initial agentId now)

theorem nodeRow_state : (s.nodeRow agentId now).state = s.nodeState agentId := by
  simp only [nodeRow, nodeState]
  cases s.nodeHealth.get? agentId
  all_goals rfl

section Observations

theorem nodeObservations_perm : (s.nodeObservations agentId since).Perm
    ((s.healthEvidence.select fun e => e.agentId = agentId && since ≤ e.occurredAt).map
      HealthEvidence.nodeObservation) :=
  (List.perm_insertionSort _ _).map _

theorem mem_nodeObservations {o : NodeHealthObservation} :
    o ∈ s.nodeObservations agentId since ↔ ∃ e ∈ s.healthEvidence, e.agentId = agentId ∧
      since ≤ e.occurredAt ∧ e.nodeObservation = o := by
  simp [nodeObservations_perm.mem_iff, Table.mem_select, and_assoc]

-- Failures that were observed are backed by evidence.
theorem diverse_of_observations {l : List NodeHealthObservation}
    (hl : ∀ o ∈ l, o ∈ s.nodeObservations agentId since ∧ o.isUsable ∧
      o.classification.class.isFailure)
    (h : 3 ≤ NodeHealthObservation.distinctInputs l ∧
        2 ≤ NodeHealthObservation.distinctSchedules l ∨
      6 ≤ NodeHealthObservation.distinctInputs l) : s.Diverse agentId since := by
  have backed (o) (ho : o ∈ l) : ∃ e ∈ s.failuresOf agentId since,
      e.inputFingerprint = o.inputFingerprint ∧ e.scheduleId = o.scheduleId := by
    have ⟨ho, hu, hf⟩ := hl o ho
    have ⟨e, he, ha, hs, ho⟩ := mem_nodeObservations.mp ho
    subst ho
    have ⟨h₁, h₂⟩ := Bool.and_eq_true_iff.mp hu
    refine ⟨e, Table.mem_select.mpr ⟨he, ?_⟩, rfl, rfl⟩
    simp_all [HealthEvidence.isFailureOf, HealthEvidence.nodeObservation]
  have mono {β : Type} [DecidableEq β] {l l' : List β} (h : l ⊆ l') :
      l.dedup.length ≤ l'.dedup.length := by
    apply (List.subperm_of_subset (List.nodup_dedup _) _).length_le
    simpa only [List.subset_def, List.mem_dedup] using h
  have h₁ : NodeHealthObservation.distinctInputs l ≤
      distinctInputs (s.failuresOf agentId since) := by
    apply mono
    intro b hb
    have ⟨o, ho, hb⟩ := List.mem_map.mp hb
    have ⟨e, he, hx, _⟩ := backed o ho
    exact List.mem_map.mpr ⟨e, he, hx.trans hb⟩
  have h₂ : NodeHealthObservation.distinctSchedules l ≤
      distinctSchedules (s.failuresOf agentId since) := by
    apply mono
    intro b hb
    have ⟨o, ho, hb⟩ := List.mem_map.mp hb
    have ⟨e, he, _, hx⟩ := backed o ho
    exact List.mem_map.mpr ⟨e, he, hx.trans hb⟩
  exact h.imp (fun ⟨h, h'⟩ => ⟨h.trans h₁, h'.trans h₂⟩) h₁.trans'

theorem successes_perm (s : Store) (agentId : String) (since : Time) :
    ((s.nodeObservations agentId since).filter (·.isUsable) |>.filter
      (·.classification.class = .functional)).Perm
        ((s.successesOf agentId since).map HealthEvidence.nodeObservation) := by
  apply (nodeObservations_perm.filter _ |>.filter _).trans
  simp only [List.filter_map, List.filter_filter, successesOf, Table.select]
  apply List.Perm.map
  apply List.Perm.of_eq
  apply List.filter_congr
  intro e _
  simp only [Function.comp_apply, HealthEvidence.nodeObservation, NodeHealthObservation.isUsable,
    HealthEvidence.isSuccessOf]
  ac_rfl

-- A node is released from probation for what happened since it was reset.
theorem applyNodeHealthEvaluation_released {evaluation : NodeHealthEvaluation}
    (h : applyNodeHealthEvaluation .probation evaluation (s.nodeObservations agentId since) =
      .healthy) :
    s.failuresOf agentId since = [] ∧ 5 ≤ (s.successesOf agentId since).length ∧
      3 ≤ distinctInputs (s.successesOf agentId since) := by
  simp only [applyNodeHealthEvaluation] at h
  split at h
  case isTrue => cases h
  case isFalse hn =>
    split at h
    case isFalse => cases h
    case isTrue hs =>
      have ⟨h₁, h₂⟩ := Bool.and_eq_true_iff.mp hs
      refine ⟨?_, ?_, ?_⟩
      case refine_1 =>
        apply List.filter_eq_nil_iff.mpr
        intro e he hf
        simp only [HealthEvidence.isFailureOf, Bool.and_eq_true, decide_eq_true_eq] at hf
        have ⟨⟨⟨⟨ha, ht⟩, hf⟩, hr⟩, hc⟩ := hf
        apply hn
        apply List.any_eq_true.mpr
        refine ⟨e.nodeObservation, List.mem_filter.mpr ⟨?_, ?_⟩, hf⟩
        · exact mem_nodeObservations.mpr ⟨e, he, ha, ht, rfl⟩
        · exact Bool.and_eq_true_iff.mpr ⟨hr, hc⟩
      case refine_2 =>
        have hl := (s.successes_perm agentId since).length_eq
        rw [List.length_map] at hl
        exact hl ▸ of_decide_eq_true h₁
      case refine_3 =>
        have hl := ((s.successes_perm agentId since).map (·.inputFingerprint)).dedup.length_eq
        rw [List.map_map] at hl
        exact (of_decide_eq_true h₂).trans_eq hl

end Observations

-- A node was scored by the evidence there is.
structure Rescores (s : Store) (order : HashOrder) (now : Time) (agentId : String) (s' : Store) :
    Prop where
  intro ::
  row : ∃ n', s'.nodeHealth.get? agentId = some n' ∧
    n'.state = applyNodeHealthEvaluation (s.nodeState agentId)
      (evaluateNodeHealth order
        (s'.nodeObservations agentId ((s.nodeRow agentId now).since now)) now)
      (s'.nodeObservations agentId ((s.nodeRow agentId now).since now)) ∧
    n'.transitionedAt =
      if s.nodeState agentId = n'.state then (s.nodeRow agentId now).transitionedAt else now

theorem nodeObservations_congr (h : s'.healthEvidence = s.healthEvidence) :
    s'.nodeObservations agentId since = s.nodeObservations agentId since := by
  simp only [nodeObservations, h]

theorem ensureNodeHealth_row {current : NodeHealth}
    (h : s.ensureNodeHealth agentId now = .ok (current, s₁)) :
    current = s.nodeRow agentId now ∧ s₁.nodeHealth.get? agentId = some current ∧
      s₁.healthEvidence = s.healthEvidence ∧
      ∀ a ≠ agentId, s₁.nodeHealth.get? a = s.nodeHealth.get? a := by
  simp only [ensureNodeHealth] at h
  cases hg : s.nodeHealth.get? agentId
  case some n =>
    simp only [hg] at h
    cases h
    exact ⟨by simp [nodeRow, hg], hg, rfl, fun _ _ => rfl⟩
  case none =>
    simp only [hg] at h
    split at h
    case isTrue => cases h
    case isFalse =>
      cases h
      obtain ⟨t, hi⟩ := Table.insert_isSome (t := s.nodeHealth) (a := .initial agentId now) hg
      have hk : (NodeHealth.initial agentId now).agentId = agentId := rfl
      simp only [nodeRow, hg, Table.insertOrIgnore, hi, Option.getD_some, Option.getD_none]
      refine ⟨trivial, ?_, trivial, fun a ha => ?_⟩
      · exact Table.get?_of_insert hi |>.trans <| if_pos hk
      · exact Table.get?_of_insert hi |>.trans <| if_neg <| Ne.symm ha

theorem rescoreNode_rescores (h : s.rescoreNode order agentId now = .ok s') :
    s.Rescores order now agentId s' ∧ s'.healthEvidence = s.healthEvidence ∧
      ∀ a ≠ agentId, s'.nodeHealth.get? a = s.nodeHealth.get? a := by
  simp only [rescoreNode] at h
  split at h
  case h_1 => cases h
  case h_2 current s₁ he =>
    obtain ⟨hc, hg, hv, ho⟩ := ensureNodeHealth_row he
    have hs : current.state = s.nodeState agentId := hc ▸ nodeRow_state
    have hk : current.agentId = agentId := Table.key_of_get? hg
    have h := Except.ok.inj h
    have hn : s'.nodeHealth = _ := h ▸ ite_appendAudit_frame.nodeHealth (by simp)
    have hv' : s'.healthEvidence = s₁.healthEvidence :=
      h ▸ ite_appendAudit_frame.healthEvidence (by simp)
    refine ⟨⟨?_⟩, hv'.trans hv, fun a ha => ?_⟩
    case refine_1 =>
      rw [← hs, ← hc, nodeObservations_congr hv', hn, Table.get?_update, hg]
      simp only [Option.map_some, hk, decide_true, if_true]
      exact ⟨_, rfl, rfl, rfl⟩
    case refine_2 =>
      rw [hn, Table.get?_update, ← ho a ha]
      cases hg : s₁.nodeHealth.get? a
      case none => rfl
      case some n =>
        have hk : n.agentId = a := Table.key_of_get? hg
        simp [hk, ha]

theorem Rescores.congr_left (h : s₁.Rescores order now a s')
    (hn : s₁.nodeHealth.get? a = s.nodeHealth.get? a) : s.Rescores order now a s' := by
  have ⟨h⟩ := h
  simp only [nodeState, nodeRow, hn] at h
  exact ⟨h⟩

theorem Rescores.congr_right (h : s.Rescores order now a s₁)
    (hn : s'.nodeHealth.get? a = s₁.nodeHealth.get? a)
    (hv : s'.healthEvidence = s₁.healthEvidence) : s.Rescores order now a s' := by
  have ⟨h⟩ := h
  rw [← hn, ← nodeObservations_congr hv] at h
  exact ⟨h⟩

-- Each of the nodes is scored once.
theorem rescoreNodes_rescores {agents : List String} (nd : agents.Nodup)
    (h : rescoreNodes order now s agents = .ok s') : s'.healthEvidence = s.healthEvidence ∧
      (∀ a ∉ agents, s'.nodeHealth.get? a = s.nodeHealth.get? a) ∧
      ∀ a ∈ agents, s.Rescores order now a s' := by
  induction agents generalizing s
  case nil =>
    cases h
    exact ⟨rfl, fun _ _ => rfl, List.forall_mem_nil _⟩
  case cons agentId agents hi =>
    obtain ⟨hm, nd⟩ := List.nodup_cons.mp nd
    simp only [rescoreNodes] at h
    split at h
    case h_1 => cases h
    case h_2 s₁ h₁ =>
      obtain ⟨hr, hv₁, ho⟩ := rescoreNode_rescores h₁
      obtain ⟨hv, hn, hx⟩ := hi nd h
      refine ⟨hv.trans hv₁, fun a ha => ?_, fun a ha => ?_⟩
      case refine_1 =>
        obtain ⟨h₁, h₂⟩ := not_or.mp <| mt List.mem_cons.mpr ha
        exact (hn a h₂).trans (ho a h₁)
      case refine_2 =>
        cases List.mem_cons.mp ha
        case inl ha =>
          subst ha
          exact hr.congr_right (hn a hm) hv
        case inr ha => exact (hx a ha).congr_left <| ho a fun he => hm <| he ▸ ha

-- What an operation can do to the health of a node.
inductive NodeStep (s : Store) (a : String) (s' : Store) : Op → Prop
  | same {op : Op} (h : s'.nodeHealth.get? a = s.nodeHealth.get? a) : NodeStep s a s' op
  | added {op : Op} {now : Time} (h : s.nodeHealth.get? a = none)
      (h' : s'.nodeHealth.get? a = some (.initial a now)) : NodeStep s a s' op
  | scored {order : HashOrder} {now : Time} (h : s.Rescores order now a s') :
      NodeStep s a s' (.recordHealthEvidence e nodes evidenceId order now)
  | set {q : Bool} {now : Time} (hq : q ∨ (s.nodeState a).isQuarantined)
      (h' : s'.nodeHealth.get? a = some n')
      (hs : n'.state = if q then .manualQuarantined else .probation)
      (ht : n'.transitionedAt = now) : NodeStep s a s' (.setNodeManualQuarantine a q now)

theorem setNodeManualQuarantine_step {q : Bool}
    (h : s.setNodeManualQuarantine agentId q now = .ok ((), s')) :
    s.NodeStep a s' (.setNodeManualQuarantine agentId q now) := by
  simp only [setNodeManualQuarantine] at h
  split at h
  case h_1 => cases h
  case h_2 current s₁ he =>
    obtain ⟨hc, hg, _, ho⟩ := ensureNodeHealth_row he
    have hs : current.state = s.nodeState agentId := hc ▸ nodeRow_state
    have hk : current.agentId = agentId := Table.key_of_get? hg
    split at h
    case isTrue => cases h
    case isFalse hn =>
      cases h
      by_cases ha : a = agentId
      case pos =>
        subst ha
        apply NodeStep.set
        case hq =>
          cases q
          case true => exact .inl rfl
          case false =>
            right
            rw [← hs]
            cases hx : current.state <;> simp_all [NodeHealthState.isQuarantined]
        case h' =>
          simp only [appendAudit, Table.get?_update, hg, Option.map_some, hk, decide_true, if_true]
          rfl
        case hs => rfl
        case ht => rfl
      case neg =>
        apply NodeStep.same
        simp only [appendAudit, Table.get?_update, ← ho a ha]
        cases hg : s₁.nodeHealth.get? a
        case none => rfl
        case some n =>
          have hk : n.agentId = a := Table.key_of_get? hg
          simp [hk, ha]

theorem exec_nodeStep (s : Store) (a : String) (op : Op) : s.NodeStep a (s.exec op) op := by
  have hf := s.exec_frame op
  cases op
  case recordHealthEvidence e nodes id order now =>
    simp only [Store.exec]
    cases hr : s.recordHealthEvidence e nodes id order now
    case error => exact .same rfl
    case ok r =>
      obtain ⟨st, s'⟩ := r
      obtain ⟨s₁, h⟩ := recorded hr
      obtain ⟨s₂, agents, nd, hv, hn, _, hs⟩ := h.scored
      obtain ⟨_, ho, hx⟩ := rescoreNodes_rescores nd hs
      have hn : s₂.nodeHealth.get? a = s.nodeHealth.get? a := by rw [hn]
      by_cases ha : a ∈ agents
      case pos => exact .scored <| (hx a ha).congr_left hn
      case neg => exact .same <| (ho a ha).trans hn
  case setNodeManualQuarantine agentId q now =>
    simp only [Store.exec]
    cases hr : s.setNodeManualQuarantine agentId q now
    case error => exact .same rfl
    case ok r => exact setNodeManualQuarantine_step hr
  case upsertAgent id hostname labels capacity running now =>
    simp only [Store.exec, upsertAgent, Transaction.persisted_commit, appendAudit]
    cases hi : s.nodeHealth.insert (.initial id now)
    case none => exact .same <| by simp [Table.insertOrIgnore, hi]
    case some t =>
      have ht : s.nodeHealth.insertOrIgnore (.initial id now) = t := by
        simp [Table.insertOrIgnore, hi]
      have hg := Table.get?_of_insert hi (k := a)
      have hk : Keyed.key (NodeHealth.initial id now) = id := rfl
      by_cases ha : id = a
      case pos =>
        subst ha
        rw [if_pos hk] at hg
        exact .added (Table.get?_key_of_insert hi) (ht ▸ hg)
      case neg => exact .same <| by simpa [ht, hk, ha] using hg
  all_goals exact .same <| by rw [hf.nodeHealth (by simp [Op.writes, Op.writes.concluding])]

theorem nodeState_of_get? {n : NodeHealth} (h : s.nodeHealth.get? a = some n) :
    s.nodeState a = n.state := by
  simp [nodeState, h]

theorem nodeRow_of_get? {n : NodeHealth} (h : s.nodeHealth.get? a = some n) :
    s.nodeRow a now = n := by
  simp [nodeRow, h]

namespace NodeStep

variable (h : s.NodeStep a s' op)

include h

theorem of_quarantined (hq : (s.nodeState a).isQuarantined) (hn : s'.nodeState a ≠ s.nodeState a) :
    ∃ q now, op = .setNodeManualQuarantine a q now := by
  cases h
  case same h => exact absurd (by simp only [nodeState, h]) hn
  case added h h' => exact absurd (by simp [nodeState, h, h', NodeHealth.initial]) hn
  case scored h =>
    obtain ⟨n', hg, hs, _⟩ := h.row
    rw [nodeState_of_get? hg, hs] at hn
    cases hx : s.nodeState a <;> simp_all [applyNodeHealthEvaluation, NodeHealthState.isQuarantined]
  case set q now _ _ _ _ => exact ⟨q, now, rfl⟩

theorem autoQuarantined (hs : s.nodeState a = .healthy ∨ s.nodeState a = .suspect)
    (hn : s'.nodeState a = .autoQuarantined) : ∃ e nodes id order now,
      op = .recordHealthEvidence e nodes id order now ∧ s'.Diverse a (now - .minutes 15) := by
  cases h
  case same h =>
    have he : s'.nodeState a = s.nodeState a := by simp only [nodeState, h]
    simp_all
  case added h h' => simp [nodeState, h', NodeHealth.initial] at hn
  case scored e nodes id order now h =>
    refine ⟨e, nodes, id, order, now, rfl, ?_⟩
    obtain ⟨n', hg, hx, _⟩ := h.row
    have hw : (s.nodeRow a now).since now = now - .minutes 15 := by
      have hp : (s.nodeRow a now).state ≠ .probation := by
        rw [nodeRow_state]
        cases hs <;> simp_all
      simp [NodeHealth.since, hp]
    rw [nodeState_of_get? hg, hx, hw] at hn
    have hd : (evaluateNodeHealth order (s'.nodeObservations a (now - .minutes 15)) now).decision =
        .autoQuarantine := by
      cases hd : (evaluateNodeHealth order (s'.nodeObservations a (now - .minutes 15)) now).decision
      case autoQuarantine => rfl
      all_goals cases hs <;> simp_all [applyNodeHealthEvaluation]
    obtain ⟨failures, hf, hd⟩ := evaluateNodeHealth_autoQuarantine hd
    apply diverse_of_observations (fun o ho => ?_) hd
    obtain ⟨ho, hs, hc⟩ := hf o ho
    exact ⟨ho, by simp_all [NodeHealthObservation.isScored], hc⟩
  case set q _ _ h' hx _ =>
    rw [nodeState_of_get? h', hx] at hn
    cases q <;> cases hn

theorem released {n : NodeHealth} (hg : s.nodeHealth.get? a = some n) (hs : n.state = .probation)
    (hn : s'.nodeState a = .healthy) : s'.failuresOf a n.transitionedAt = [] ∧
      5 ≤ (s'.successesOf a n.transitionedAt).length ∧
      3 ≤ distinctInputs (s'.successesOf a n.transitionedAt) := by
  cases h
  case same h =>
    rw [nodeState, h, hg] at hn
    exact absurd (hs.symm.trans hn) (by rintro ⟨⟩)
  case added h _ => simp [hg] at h
  case scored h =>
    obtain ⟨n', hg', hx, _⟩ := h.row
    rw [nodeState_of_get? hg', hx, nodeState_of_get? hg, nodeRow_of_get? hg, hs] at hn
    simp only [NodeHealth.since, hs, if_true] at hn
    exact applyNodeHealthEvaluation_released hn
  case set q _ _ h' hx _ =>
    rw [nodeState_of_get? h', hx] at hn
    cases q <;> cases hn

theorem healthy (hs : s.nodeState a = .healthy)
    (he : ∀ e ∈ s'.healthEvidence, e.agentId = a → e.classification.class.isFailure = false) :
    s'.nodeState a = .healthy ∨ ∃ now, op = .setNodeManualQuarantine a true now := by
  cases h
  case same h => exact .inl <| by simpa only [nodeState, h] using hs
  case added h' => exact .inl <| by simp [nodeState, h', NodeHealth.initial]
  case scored order now h =>
    obtain ⟨n', hg, hx, _⟩ := h.row
    left
    rw [nodeState_of_get? hg, hx, hs]
    have hd : (evaluateNodeHealth order
        (s'.nodeObservations a ((s.nodeRow a now).since now)) now).decision = .healthy := by
      apply evaluateNodeHealth_healthy
      intro o ho
      obtain ⟨e, hm, ha, _, ho⟩ := mem_nodeObservations.mp ho
      exact ho ▸ he e hm ha
    simp [applyNodeHealthEvaluation, hd]
  case set q now hq h' hx _ =>
    cases q
    case true => exact .inr ⟨now, rfl⟩
    case false => simp [hs, NodeHealthState.isQuarantined] at hq

-- A node is on probation since it was reset.
theorem probation {n' : NodeHealth} (hg : s'.nodeHealth.get? a = some n')
    (hs : n'.state = .probation) :
    (∃ n, s.nodeHealth.get? a = some n ∧ n.state = .probation ∧
      n.transitionedAt = n'.transitionedAt) ∨
    op = .setNodeManualQuarantine a false n'.transitionedAt := by
  cases h
  case same h => exact .inl ⟨n', h ▸ hg, hs, rfl⟩
  case added h' =>
    cases hg.symm.trans h'
    cases hs
  case scored now h =>
    have ⟨n₁, hg₁, hx, ht⟩ := h.row
    cases hg₁.symm.trans hg
    have hp : s.nodeState a = .probation := by
      rw [hs] at hx
      cases hp : s.nodeState a
      case probation => rfl
      all_goals
        simp only [hp, applyNodeHealthEvaluation] at hx
        try split at hx
        all_goals cases hx
    cases hg : s.nodeHealth.get? a
    case none => simp [nodeState, hg] at hp
    case some n =>
      rw [hp, hs, if_pos rfl, nodeRow_of_get? hg] at ht
      exact .inl ⟨n, rfl, nodeState_of_get? hg ▸ hp, ht.symm⟩
  case set q now _ h' hx ht =>
    cases hg.symm.trans h'
    cases q
    case true =>
      rw [hs] at hx
      cases hx
    case false => exact .inr <| ht ▸ rfl

end NodeStep

-- The node was reset at `since` by one of the operations, and is on probation from then on.
def ResetAt (ops : List Op) (a : String) (since : Time) : Prop :=
  ∃ ops₁ ops₂, ops = ops₁ ++ .setNodeManualQuarantine a false since :: ops₂ ∧
    ∀ ops₃, ops₃ <+: ops₂ →
      (database.run .empty (ops₁ ++ .setNodeManualQuarantine a false since :: ops₃)).nodeState a =
        .probation

theorem resetAt {ops : List Op} {n : NodeHealth}
    (hg : (database.run .empty ops).nodeHealth.get? a = some n) (hs : n.state = .probation) :
    ResetAt ops a n.transitionedAt := by
  induction ops using List.reverseRecOn generalizing n
  case nil => cases hg
  case append_singleton ops op ih =>
    rw [Machine.run_append] at hg
    have hp : (database.run .empty (ops ++ [op])).nodeState a = .probation := by
      rw [Machine.run_append, nodeState_of_get? hg, hs]
    cases (exec_nodeStep _ a op).probation hg hs
    case inl h =>
      have ⟨n₁, hg₁, hs₁, ht⟩ := h
      have ⟨ops₁, ops₂, he, hx⟩ := ih hg₁ hs₁
      rw [ht] at he hx
      refine ⟨ops₁, ops₂ ++ [op], by simp [he], fun ops₃ h₃ => ?_⟩
      cases List.prefix_concat_iff.mp h₃
      case inl h₃ =>
        subst h₃
        simpa [he] using hp
      case inr h₃ => exact hx ops₃ h₃
    case inr h =>
      refine ⟨ops, [], by rw [← h], fun ops₃ h₃ => ?_⟩
      cases List.prefix_nil.mp h₃
      exact h ▸ hp

theorem node_health_transitions (ops : List Op) (op : Op) (a : String) :
    let s := database.run .empty ops
    ((s.nodeState a).isQuarantined → (s.exec op).nodeState a ≠ s.nodeState a →
      ∃ q now, op = .setNodeManualQuarantine a q now) ∧
    (s.nodeState a = .healthy ∨ s.nodeState a = .suspect →
      (s.exec op).nodeState a = .autoQuarantined → ∃ e nodes id order now,
        op = .recordHealthEvidence e nodes id order now ∧
        (s.exec op).Diverse a (now - .minutes 15)) ∧
    (s.nodeState a = .probation → (s.exec op).nodeState a = .healthy → ∃ since,
      ResetAt ops a since ∧ (s.exec op).failuresOf a since = [] ∧
      5 ≤ ((s.exec op).successesOf a since).length ∧
      3 ≤ distinctInputs ((s.exec op).successesOf a since)) ∧
    (s.nodeState a = .healthy →
      (∀ e ∈ (s.exec op).healthEvidence, e.agentId = a →
        e.classification.class.isFailure = false) →
      (s.exec op).nodeState a = .healthy ∨ ∃ now, op = .setNodeManualQuarantine a true now) := by
  intro s
  have h := s.exec_nodeStep a op
  refine ⟨h.of_quarantined, h.autoQuarantined, fun hs hn => ?_, h.healthy⟩
  cases hg : s.nodeHealth.get? a
  case none => simp [nodeState, hg] at hs
  case some n =>
    rw [nodeState_of_get? hg] at hs
    exact ⟨n.transitionedAt, resetAt hg hs, h.released hg hs hn⟩

end Store

namespace Sample

-- What a node reported about an input of a run, apart from an attempt of it.
def reported (code : Option FailureCode) (input : String) (clusterSuppressed : Bool) :
    NewHealthEvidence :=
  { failure 0 "first" 1000 with
    attemptId        := none
    runId            := 10
    inputFingerprint := input
    classification   := code.elim (classifyResult .succeeded none) classifyFailureCode
    clusterSuppressed
  }

-- The node is taken out of service, reset, and does well apart from a failure that is not held
-- against it.
def onProbation : List Op := [
    .createSchedule schedule 0,
    .createRun run 2 0,
    .upsertAgent "first" "host" [] 1 0 0,
    .setNodeManualQuarantine "first" true 0,
    .setNodeManualQuarantine "first" false 500,
    .recordHealthEvidence (reported (some .executorStartFailed) "a" true) 2 30 default 1000,
    .recordHealthEvidence (reported none "a" false) 2 31 default 1000,
    .recordHealthEvidence (reported none "b" false) 2 32 default 1000,
    .recordHealthEvidence (reported none "c" false) 2 33 default 1000,
    .recordHealthEvidence (reported none "a" false) 2 34 default 1000
  ]

def lastReport : Op :=
  .recordHealthEvidence (reported none "b" false) 2 35 default 1000

end Sample

namespace Store

open Sample

theorem node_health_transitions_released : ∃ since, ResetAt onProbation "first" since ∧
    5 ≤ (((database.run .empty onProbation).exec lastReport).successesOf "first" since).length := by
  have h := node_health_transitions onProbation lastReport "first"
  have ⟨since, hr, _, hs, _⟩ := h.right.right.left (by decide) (by decide)
  exact ⟨since, hr, hs⟩

theorem suppressed_failure_released : ∃ ops op since, ResetAt ops "first" since ∧
    (database.run .empty ops).nodeState "first" = .probation ∧
    ((database.run .empty ops).exec op).nodeState "first" = .healthy ∧
    ∃ e ∈ ((database.run .empty ops).exec op).healthEvidence, e.agentId = "first" ∧
      since ≤ e.occurredAt ∧ e.classification.class.isFailure ∧ e.retracted = false := by
  have hg : ∃ n ∈ (database.run .empty onProbation).nodeHealth.get? "first",
      n.state = .probation ∧ n.transitionedAt = 500 := by
    decide
  have ⟨n, hg, hs, ht⟩ := hg
  exact ⟨onProbation, lastReport, 500, ht ▸ resetAt hg hs, by decide, by decide, by decide⟩

end Store

end Scheduler
