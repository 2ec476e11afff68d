import TaskScheduler.Health.Inputs
import TaskScheduler.Coordinator.Quarantine

namespace Scheduler

namespace Store

open InputHealthObservation

variable {s s₁ : Store} {e : NewHealthEvidence} {nodes : Nat} {id : Uuid} {order : HashOrder}
variable {now : Time} {digest fingerprint : String} {op : Op} {ops : List Op} {i : InputHealth}

section

variable (digest fingerprint)

-- The failures because of which the input is suspected or confirmed.
def countedFailures (s : Store) : List InputHealthObservation :=
  let observations := s.inputObservations digest fingerprint
  observations.filter fun o =>
    (s.inputHealth.get? (digest, fingerprint)).any fun i =>
      i.failureFamily.any fun g => countsFor observations g o

-- The task worked, and not before all these failures.
def Exonerates (s : Store) : Op → Prop
  | .recordHealthEvidence e .. =>
    (e.blueprintDigest, e.inputFingerprint) = (digest, fingerprint) ∧
      e.classification.class = .functional ∧
      ∃ o ∈ s.countedFailures digest fingerprint, o.occurredAt ≤ e.occurredAt
  | _ => False

-- Evidence is not evaluated with a threshold that the input would not reach again.
def Comparable (s : Store) : Op → Prop
  | .recordHealthEvidence e nodes .. =>
    (e.blueprintDigest, e.inputFingerprint) = (digest, fingerprint) →
      ∀ i ∈ s.inputHealth.get? (digest, fingerprint), max nodes 2 ≤ i.distinctHealthyNodes
  | _ => True

def isProbe : Op → Bool
  | .consumeProbeOrIsHeld d f _ => d = digest && f = fingerprint
  | _                           => false

end

-- Evidence that does not exonerate an input leaves the nodes that count against it.
theorem length_nodesOf_insertEvidence {g : FailureFamily}
    (hn : ¬s.Exonerates digest fingerprint (.recordHealthEvidence e nodes id order now))
    (hg : s.inputHealth.get? (digest, fingerprint) = some i) (hf : i.failureFamily = some g)
    (h : s.insertEvidence e id now = .ok s₁) :
    (nodesOf (s.inputObservations digest fingerprint) g).length ≤
      (nodesOf (s₁.inputObservations digest fingerprint) g).length := by
  apply length_nodesOf_le
  intro o ho hc
  have ⟨hl, hx⟩ := countsFor_iff.mp hc
  refine ⟨mem_inputObservations_of_insertEvidence h ho, countsFor_iff.mpr ⟨?_, hx⟩⟩
  intro b hb hb'
  cases eq_observation_of_insertEvidence h hb
  case inl hb => exact hl b hb hb'
  case inr hb =>
    have ⟨ha, hb⟩ := hb
    subst hb
    by_contra ht
    apply hn
    have ⟨h₁, h₂⟩ := Bool.and_eq_true_iff.mp ha
    refine ⟨Prod.ext (of_decide_eq_true h₁) (of_decide_eq_true h₂), hb', o, ?_, not_lt.mp ht⟩
    simp [countedFailures, hg, hf, ho, hc]

theorem Recorded.confirmed {st : InputHealthState} {s' : Store}
    (h : s.Recorded e nodes id order now s₁ st s') (hv : s.Evaluated)
    (hi : s.inputHealth.get? (e.blueprintDigest, e.inputFingerprint) = some i)
    (hc : i.state = .confirmed) (ht : max nodes 2 ≤ i.distinctHealthyNodes)
    (hn : ¬s.Exonerates e.blueprintDigest e.inputFingerprint
      (.recordHealthEvidence e nodes id order now)) :
    st = .confirmed := by
  have hf := hv i (Table.mem_of_get? hi)
  have ⟨g, hg⟩ := Option.isSome_iff_exists.mp <| hf.isSome hc
  have h₁ : i.blueprintDigest = e.blueprintDigest := congrArg Prod.fst (Table.key_of_get? hi)
  have h₂ : i.inputFingerprint = e.inputFingerprint := congrArg Prod.snd (Table.key_of_get? hi)
  rw [h.state]
  apply evaluateInputHealth_confirmed_iff.mpr
  have hd := hf.family g hg
  rw [h₁, h₂] at hd
  exact ⟨g, ht.trans <| hd.le.trans <| length_nodesOf_insertEvidence hn hi hg h.inserted⟩

-- The input is confirmed, with a probe if `probe` holds.
def IsConfirmed (s : Store) (digest fingerprint : String) (probe : Bool) : Prop :=
  ∃ i, s.inputHealth.get? (digest, fingerprint) = some i ∧ i.state = .confirmed ∧
    (probe → i.probeAvailable)

theorem IsConfirmed.of_update {probe : Bool} {s' : Store} {p : InputHealth → Bool}
    {f : InputHealth → InputHealth} (h : s.IsConfirmed digest fingerprint probe)
    (ht : s'.inputHealth.rows = s.inputHealth.rows.map fun i => if p i then f i else i)
    (hf : ∀ i, p i → Keyed.key (f i) = Keyed.key i ∧ (f i).state = i.state ∧
      (Keyed.key i = (digest, fingerprint) → probe → i.probeAvailable → (f i).probeAvailable)) :
    s'.IsConfirmed digest fingerprint probe := by
  have ⟨i, hi, hs, ha⟩ := h
  have ⟨hm, hk⟩ := Table.get?_eq_some.mp hi
  have hm' : (if p i then f i else i) ∈ s'.inputHealth :=
    Table.mem_rows.mp <| ht ▸ List.mem_map.mpr ⟨i, hm, rfl⟩
  by_cases hp : p i
  case neg =>
    rw [if_neg hp] at hm'
    exact ⟨i, Table.get?_eq_some.mpr ⟨hm', hk⟩, hs, ha⟩
  case pos =>
    rw [if_pos hp] at hm'
    have ⟨h₁, h₂, h₃⟩ := hf i hp
    exact ⟨f i, Table.get?_eq_some.mpr ⟨hm', h₁.trans hk⟩, h₂.trans hs, fun hb => h₃ hk hb (ha hb)⟩

theorem IsConfirmed.exec {probe : Bool} (h : s.IsConfirmed digest fingerprint probe)
    (hv : s.Evaluated) (hc : s.Comparable digest fingerprint op)
    (hn : ¬s.Exonerates digest fingerprint op)
    (hp : probe → isProbe digest fingerprint op = false) :
    (s.exec op).IsConfirmed digest fingerprint probe := by
  have hf := s.exec_frame op
  obtain ⟨i, hi, hs, ha⟩ := id h
  cases op
  case recordHealthEvidence e nodes id order now =>
    simp only [Store.exec]
    cases hr : s.recordHealthEvidence e nodes id order now
    case error => exact h
    case ok r =>
      obtain ⟨st, s'⟩ := r
      obtain ⟨s₁, hr⟩ := recorded hr
      have hx : s₁.inputHealth = s.inputHealth :=
        (insertEvidence_frame hr.inserted).inputHealth (by simp)
      simp only [Transaction.persisted_ok, IsConfirmed, hr.inputs, upsertInputHealth,
        Table.get?_upsert, hx]
      split
      case isFalse => exact h
      case isTrue hk =>
        cases hk
        have ht : st = .confirmed := hr.confirmed hv hi hs (hc rfl i hi) hn
        rw [hr.state] at ht
        exact ⟨_, rfl, by simp [hi, ht], by simpa [hi, ht] using ha⟩
  case grantInputProbe d f now =>
    simp only [Store.exec, grantInputProbe]
    split
    case isFalse => exact h
    case isTrue => exact h.of_update rfl fun _ _ => ⟨rfl, rfl, fun _ _ _ => rfl⟩
  case consumeProbeOrIsHeld d f now =>
    simp only [Store.exec, consumeProbeOrIsHeld]
    repeat' split
    case _ | _ => exact h
    case _ =>
      apply h.of_update rfl
      intro i hx
      refine ⟨rfl, rfl, fun hk hb => ?_⟩
      -- The probe of another input is used up.
      obtain ⟨h₁, h₂⟩ := Prod.mk.inj hk
      have hp := hp hb
      simp_all [isProbe]
    case _ => exact h
  all_goals
    have hx := hf.inputHealth (by simp [Op.writes, Op.writes.concluding])
    simp only [IsConfirmed, hx]
    exact h

end Store

namespace Sample

-- An administrator lets an item with the poisoned input into a batch that asks for three nodes.
def probed : List Action :=
  poisonedChild ++ [
    .store (.grantInputProbe "blueprint" "input" 2000),
    .store (.createBatch { batch with id := 300, poisonDistinctNodes := 3 } 3 2000),
    .store (.claimCollectionBatch 300 "worker" 60 "lease" 2000),
    .store (.consumeProbeOrIsHeld "blueprint" "input" 2000),
    .store (.commitCollectionPage { page with batchId := 300, items := [item 301 0 "first"] } 2000),
    .store (.finalizeBatch 300 "lease" (· + 100) 2000),
    .store (.createAttempt 401 "first" 30 40 "token" 2000),
    .deliver 40 .sent,
    .store (.acceptAttempt 40 "token" 30 2000),
    .store (.finishAttempt 40 "token" (result .failed) none 0 3000),
    .store (.grantInputProbe "blueprint" "input" 3000)
  ]

def probeFailure : NewHealthEvidence :=
  { failure 40 "first" 3000 with runId := 401 }

end Sample

namespace Store

open Sample

-- The evidence of the batch is evaluated with its own threshold, which the input does not reach.

end Store

end Scheduler
