import TaskScheduler.Health.Evidence

namespace Scheduler

namespace InputHealthObservation

variable {obs obs' : List InputHealthObservation} {g : FailureFamily} {n : Nat} {a : String}

-- The observations that speak against an input with one failure family.
def countsFor (obs : List InputHealthObservation) (g : FailureFamily) (o : InputHealthObservation) :
    Bool :=
  o.counts (lastFunctional obs) && o.classification.family = g

theorem any_lastFunctional {t : Time} : (lastFunctional obs).any (t ≤ ·) ↔
    ∃ o ∈ obs, o.classification.class = .functional ∧ t ≤ o.occurredAt := by
  simp only [lastFunctional]
  cases hm : ((obs.filter (·.classification.class = .functional)).map (·.occurredAt)).max?
  case none =>
    have hn := List.map_eq_nil_iff.mp <| List.max?_eq_none_iff.mp hm
    have hn := List.filter_eq_nil_iff.mp hn
    simpa using fun o ho hf => absurd hf <| by simpa using hn o ho
  case some last =>
    have ⟨hl, hle⟩ := List.max?_eq_some_iff.mp hm
    simp only [List.mem_map, List.mem_filter, decide_eq_true_eq] at hl hle
    simp only [Option.any_some, decide_eq_true_eq]
    constructor
    case mp =>
      intro ht
      have ⟨o, ⟨ho, hf⟩, hx⟩ := hl
      exact ⟨o, ho, hf, hx ▸ ht⟩
    case mpr =>
      intro ⟨o, ho, hf, ht⟩
      exact ht.trans <| hle _ ⟨o, ⟨ho, hf⟩, rfl⟩

theorem countsFor_iff {o : InputHealthObservation} : countsFor obs g o ↔
    (∀ b ∈ obs, b.classification.class = .functional → b.occurredAt < o.occurredAt) ∧
      o.nodeWasHealthy ∧ o.classification.class = .ambiguous ∧ o.classification.family = g := by
  have hl : (lastFunctional obs).any (o.occurredAt ≤ ·) = false ↔
      ∀ b ∈ obs, b.classification.class = .functional → b.occurredAt < o.occurredAt := by
    rw [← Bool.not_eq_true, any_lastFunctional]
    simp
  simp only [countsFor, counts, Bool.and_eq_true, Bool.not_eq_true', decide_eq_true_eq, hl, and_assoc]

theorem mem_nodesOf : a ∈ nodesOf obs g ↔ ∃ o ∈ obs, countsFor obs g o ∧ o.agentId = a := by
  simp only [nodesOf, List.mem_dedup, List.mem_map, List.mem_filter, countsFor, and_assoc]

theorem length_nodesOf_le (h : ∀ o ∈ obs, countsFor obs g o → o ∈ obs' ∧ countsFor obs' g o) :
    (nodesOf obs g).length ≤ (nodesOf obs' g).length := by
  have nd : (nodesOf obs g).Nodup := List.nodup_dedup _
  apply (List.subperm_of_subset nd _).length_le
  intro a ha
  have ⟨o, ho, hc, ha⟩ := mem_nodesOf.mp ha
  have ⟨ho, hc⟩ := h o ho hc
  exact mem_nodesOf.mpr ⟨o, ho, hc, ha⟩

-- Only the set of observations matters.
theorem length_nodesOf_congr (h : ∀ o, o ∈ obs ↔ o ∈ obs') :
    (nodesOf obs g).length = (nodesOf obs' g).length := by
  apply Nat.le_antisymm
  all_goals
    apply length_nodesOf_le
    intro o ho hc
    simp only [countsFor_iff, h] at *
    exact ⟨ho, hc⟩

end InputHealthObservation

open InputHealthObservation in
-- What an evaluation says about the observations it is made from.
structure InputHealthEvaluation.Fits (v : InputHealthEvaluation) (obs : List InputHealthObservation) :
    Prop where
  family : ∀ g ∈ v.family, v.distinctHealthyNodes = (nodesOf obs g).length
  most   : ∀ g, (nodesOf obs g).length ≤ v.distinctHealthyNodes
  isSome : v.state = .confirmed → v.family.isSome

theorem InputHealthEvaluation.Fits.congr {v : InputHealthEvaluation} {obs obs' : List InputHealthObservation}
    (h : v.Fits obs) (he : ∀ o, o ∈ obs ↔ o ∈ obs') : v.Fits obs' where
  family g hg := (h.family g hg).trans <| InputHealthObservation.length_nodesOf_congr he
  most g      := InputHealthObservation.length_nodesOf_congr he ▸ h.most g
  isSome      := h.isSome

theorem evaluateInputHealth_fits {obs n} : (evaluateInputHealth obs n).Fits obs := by
  unfold evaluateInputHealth
  generalize hs : strongest (InputHealthObservation.nodesOf obs) FailureFamily.all = best
  cases best
  case none =>
    refine ⟨nofun, fun g => ?_, nofun⟩
    simp [InputHealthEvaluation.ofStrongest, strongest_none hs g g.mem_all]
  case some f =>
    have hf g := strongest_some hs g g.mem_all
    simp only [InputHealthEvaluation.ofStrongest]
    split
    all_goals
      refine ⟨fun g hg => ?_, hf, fun _ => rfl⟩
      cases hg
      rfl

def HealthEvidence.observation (e : HealthEvidence) : InputHealthObservation where
  agentId        := e.agentId
  occurredAt     := e.occurredAt
  classification := e.classification
  nodeWasHealthy := e.nodeWasHealthy

-- The evaluation that is stored for an input.
def InputHealth.evaluation (i : InputHealth) : InputHealthEvaluation where
  state                := i.state
  family               := i.failureFamily
  distinctHealthyNodes := i.distinctHealthyNodes

def InputHealth.verdict (i : InputHealth) : (String × String) × InputHealthEvaluation :=
  ((i.blueprintDigest, i.inputFingerprint), i.evaluation)

namespace Store

variable {s s' s₁ : Store} {e : NewHealthEvidence} {nodes : Nat} {id : Uuid} {order : HashOrder}
variable {now : Time} {st : InputHealthState} {digest fingerprint : String} {op : Op}

theorem mem_inputObservations {o : InputHealthObservation} : o ∈ s.inputObservations digest fingerprint ↔
    ∃ e ∈ s.healthEvidence, e.isAbout digest fingerprint ∧ e.observation = o := by
  simp only [inputObservations, List.mem_map, List.mem_insertionSort, Table.mem_select, and_assoc]
  rfl

-- The evidence from which an input is evaluated.
def inputEvidence (e : HealthEvidence) : String × String × InputHealthObservation :=
  (e.blueprintDigest, e.inputFingerprint, e.observation)

theorem mem_inputObservations_of_same {o : InputHealthObservation}
    (h : Table.Same inputEvidence s.healthEvidence s'.healthEvidence) :
    o ∈ s'.inputObservations digest fingerprint ↔ o ∈ s.inputObservations digest fingerprint := by
  have imp {s s' : Store} (h : Table.Same inputEvidence s.healthEvidence s'.healthEvidence)
      (ho : o ∈ s'.inputObservations digest fingerprint) : o ∈ s.inputObservations digest fingerprint := by
    have ⟨e', hm, ha, ho⟩ := mem_inputObservations.mp ho
    have ⟨e, hm, he⟩ := h.exists_left hm
    have ⟨h₁, he⟩ := Prod.mk.inj he
    have ⟨h₂, h₃⟩ := Prod.mk.inj he
    refine mem_inputObservations.mpr ⟨e, hm, ?_, h₃.trans ho⟩
    simpa only [HealthEvidence.isAbout, h₁, h₂] using ha
  exact ⟨imp h, imp (Eq.symm h)⟩

-- Every stored evaluation is the one of the evidence there is.
def Evaluated (s : Store) : Prop :=
  ∀ i ∈ s.inputHealth, i.evaluation.Fits (s.inputObservations i.blueprintDigest i.inputFingerprint)

theorem Evaluated.of_same (h : s.Evaluated)
    (he : Table.Same inputEvidence s.healthEvidence s'.healthEvidence)
    (hi : Table.Same InputHealth.verdict s.inputHealth s'.inputHealth) : s'.Evaluated := by
  intro i' hm
  have ⟨i, hm, hv⟩ := hi.exists_left hm
  have ⟨hk, hv⟩ := Prod.mk.inj hv
  have ⟨h₁, h₂⟩ := Prod.mk.inj hk
  have hf := h i hm
  rw [h₁, h₂, hv] at hf
  exact hf.congr fun _ => (mem_inputObservations_of_same he).symm

theorem mem_inputObservations_of_insertEvidence {o : InputHealthObservation}
    (h : s.insertEvidence e id now = .ok s₁) (ho : o ∈ s.inputObservations digest fingerprint) :
    o ∈ s₁.inputObservations digest fingerprint := by
  have ⟨e', hm, ho⟩ := mem_inputObservations.mp ho
  exact mem_inputObservations.mpr ⟨e', mem_of_insertEvidence h hm, ho⟩

theorem eq_observation_of_insertEvidence {o : InputHealthObservation}
    (h : s.insertEvidence e id now = .ok s₁) (ho : o ∈ s₁.inputObservations digest fingerprint) :
    o ∈ s.inputObservations digest fingerprint ∨
      (e.row id now).isAbout digest fingerprint ∧ o = (e.row id now).observation := by
  have ⟨e', hm, ha, ho⟩ := mem_inputObservations.mp ho
  cases eq_row_of_insertEvidence h hm
  case inl hm => exact .inl <| mem_inputObservations.mpr ⟨e', hm, ha, ho⟩
  case inr hm => exact .inr ⟨hm ▸ ha, hm ▸ ho.symm⟩

-- Evidence about another input does not matter.
theorem mem_inputObservations_insertEvidence {o : InputHealthObservation}
    (h : s.insertEvidence e id now = .ok s₁)
    (hn : (digest, fingerprint) ≠ (e.blueprintDigest, e.inputFingerprint)) :
    o ∈ s₁.inputObservations digest fingerprint ↔ o ∈ s.inputObservations digest fingerprint := by
  constructor
  case mp =>
    intro ho
    cases eq_observation_of_insertEvidence h ho
    case inl ho => exact ho
    case inr hx =>
      have ⟨h₁, h₂⟩ := Bool.and_eq_true_iff.mp hx.left
      exact absurd (Prod.ext (of_decide_eq_true h₁).symm (of_decide_eq_true h₂).symm) hn
  case mpr => exact mem_inputObservations_of_insertEvidence h

theorem Recorded.same (h : s.Recorded e nodes id order now s₁ st s') :
    Table.Same inputEvidence s₁.healthEvidence s'.healthEvidence := by
  rw [h.evidence]
  exact .of_update rfl fun _ _ _ => rfl

theorem Recorded.evaluated (h : s.Recorded e nodes id order now s₁ st s') (hv : s.Evaluated) :
    s'.Evaluated := by
  have hi : s₁.inputHealth = s.inputHealth := (insertEvidence_frame h.inserted).inputHealth (by simp)
  have hx {v : InputHealthEvaluation}
      (hv : v.Fits (s₁.inputObservations e.blueprintDigest e.inputFingerprint)) :
      v.Fits (s'.inputObservations e.blueprintDigest e.inputFingerprint) :=
    hv.congr fun _ => (mem_inputObservations_of_same h.same).symm
  intro i hm
  rw [h.inputs, upsertInputHealth, hi] at hm
  cases Table.mem_of_upsert hm
  case inl hm =>
    have hf := hv i hm.left
    have hn : (i.blueprintDigest, i.inputFingerprint) ≠ (e.blueprintDigest, e.inputFingerprint) := hm.right
    apply hf.congr
    intro o
    rw [mem_inputObservations_of_same h.same, mem_inputObservations_insertEvidence h.inserted hn]
  case inr hm =>
    cases hm
    case inl hm =>
      rw [hm]
      exact hx evaluateInputHealth_fits
    case inr hm =>
      obtain ⟨i, _, hk, rfl⟩ := hm
      obtain ⟨h₁, h₂⟩ := Prod.mk.inj hk
      simp only [h₁, h₂]
      exact hx evaluateInputHealth_fits

theorem Evaluated.exec (h : s.Evaluated) (op : Op) : (s.exec op).Evaluated := by
  have hf := s.exec_frame op
  cases op
  case recordHealthEvidence e nodes id order now =>
    simp only [Store.exec]
    cases hr : s.recordHealthEvidence e nodes id order now
    case error => exact h
    case ok =>
      obtain ⟨_, hr⟩ := recorded hr
      exact hr.evaluated h
  case grantInputProbe digest fingerprint now =>
    apply h.of_same
    case he => exact hf.healthEvidence (by simp [Op.writes]) ▸ .refl
    case hi =>
      simp only [Store.exec, grantInputProbe]
      split
      case isTrue => exact .of_update rfl fun _ _ _ => rfl
      case isFalse => exact .refl
  case consumeProbeOrIsHeld digest fingerprint now =>
    apply h.of_same
    case he => exact hf.healthEvidence (by simp [Op.writes]) ▸ .refl
    case hi =>
      simp only [Store.exec, consumeProbeOrIsHeld]
      repeat' split
      case _ | _ => exact .refl
      case _ => exact .of_update rfl fun _ _ _ => rfl
      case _ => exact .refl
  all_goals
    have he := hf.healthEvidence (by simp [Op.writes, Op.writes.concluding])
    have hi := hf.inputHealth (by simp [Op.writes, Op.writes.concluding])
    apply h.of_same
    case he => exact he ▸ .refl
    case hi => exact hi ▸ .refl

theorem Reachable.evaluated (h : s.Reachable) : s.Evaluated :=
  Machine.Reachable.invariant (I := Evaluated) (fun _ op hv _ => hv.exec op) h nofun

end Store

end Scheduler
