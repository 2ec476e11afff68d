import TaskScheduler.Health.Evidence
import TaskScheduler.Coordinator.Quarantine

namespace Scheduler

namespace Core

variable {c : Core} {poisoned : Uuid → Bool}

-- Nothing waits that a confirmation would take off the queue.
theorem poison_eq_self_iff : c.poison poisoned = c ↔
    (∀ run ∈ c.runs, run.state = .queued → poisoned run.id = false) ∧
    ∀ i ∈ c.batchItems, i.runId.any poisoned → i.state.isPoisonable = false := by
  constructor
  case mp =>
    intro h
    have hr : (c.poison poisoned).runs = c.runs := congrArg runs h
    have hi : (c.poison poisoned).batchItems = c.batchItems := congrArg batchItems h
    constructor
    case left =>
      intro run hm hq
      by_contra hp
      have he := (Table.eq_iff_of_update rfl).mp hr run hm (by simp [hq, hp])
      simpa [hq] using congrArg Run.state he
    case right =>
      intro i hm hp
      by_contra hs
      have he := (Table.eq_iff_of_update rfl).mp hi i hm (by simp [hp, hs])
      rw [← congrArg BatchItem.state he] at hs
      exact hs rfl
  case mpr =>
    intro ⟨hr, hi⟩
    have hn : c.poisonedItems poisoned = [] := by
      apply List.filter_eq_nil_iff.mpr
      intro i hm hp
      have ⟨hp, hs⟩ := Bool.and_eq_true_iff.mp hp
      exact Bool.false_ne_true <| (hi i hm hp).symm.trans hs
    apply Core.ext
    case runs =>
      apply Table.eq_of_update rfl
      intro run hm hp
      have ⟨hq, hp⟩ := Bool.and_eq_true_iff.mp hp
      simp [hr run hm (of_decide_eq_true hq)] at hp
    case attempts => rfl
    case batches => exact Table.eq_of_update rfl <| by simp [hn]
    case batchItems =>
      apply Table.eq_of_update rfl
      intro i hm hp
      have ⟨hp, hs⟩ := Bool.and_eq_true_iff.mp hp
      simp [hi i hm hp] at hs

end Core

namespace Store

variable {s s' : Store} {e : NewHealthEvidence} {nodes : Nat} {id a : Uuid} {order : HashOrder}
variable {now : Time} {st : InputHealthState}

-- The tables that decide about scheduling are the same.
structure SameScheduling (s s' : Store) : Prop where
  runs     : s'.runs = s.runs
  items    : s'.batchItems = s.batchItems
  batches  : s'.batches = s.batches
  evidence : s'.healthEvidence = s.healthEvidence

-- A confirmation of the input would find nothing to do: none of its runs is queued, none of their items
-- can be poisoned, and its ambiguous evidence is taken back.
structure Quiet (s : Store) (digest fingerprint : String) : Prop where
  runs     : ∀ run ∈ s.runs, run.state = .queued → s.hasEvidence digest fingerprint run.id = false
  items    : ∀ i ∈ s.batchItems, i.runId.any (s.hasEvidence digest fingerprint) →
    i.state.isPoisonable = false
  evidence : ∀ e ∈ s.healthEvidence, e.isAmbiguous digest fingerprint → e.retracted

theorem sameScheduling_of_core (hc : s'.core = s.core) (he : s'.healthEvidence = s.healthEvidence) :
    s.SameScheduling s' where
  runs     := congrArg Core.runs hc
  items    := congrArg Core.batchItems hc
  batches  := congrArg Core.batches hc
  evidence := he

-- Evidence that is recorded a second time is not added, but its input is evaluated again.
theorem replay_iff (ha : e.attemptId = some a) (hc : s.isClassified a) :
    s.SameScheduling (s.exec (.recordHealthEvidence e nodes id order now)) ↔
      ∀ st s', s.recordHealthEvidence e nodes id order now = .ok (st, s') →
        (s.evaluateInput e.blueprintDigest e.inputFingerprint nodes).state = .confirmed →
        s.Quiet e.blueprintDigest e.inputFingerprint := by
  cases h : s.recordHealthEvidence e nodes id order now
  case error =>
    have hx : s.exec (.recordHealthEvidence e nodes id order now) = s := by simp [exec, h]
    rw [hx]
    exact iff_of_true ⟨rfl, rfl, rfl, rfl⟩ (by rintro _ _ ⟨⟩)
  case ok r =>
    obtain ⟨st, s'⟩ := r
    have hx : s.exec (.recordHealthEvidence e nodes id order now) = s' := by simp [exec, h]
    obtain ⟨s₁, hr⟩ := recorded h
    obtain rfl := insertEvidence_classified ha hc hr.inserted
    rw [hx]
    constructor
    case mp =>
      intro hs _ _ _ hc
      rw [← hr.state] at hc
      have hp := hr.core
      rw [if_pos hc] at hp
      obtain ⟨h₁, h₂⟩ := Core.poison_eq_self_iff.mp <| hp.symm.trans <|
        Core.ext hs.runs (hr.attempts) hs.batches hs.items
      refine ⟨h₁, h₂, fun e' hm ha => ?_⟩
      have he := (Table.eq_iff_of_update (congrArg Table.rows hr.evidence)).mp hs.evidence e' hm (by simp [hc, ha])
      exact congrArg HealthEvidence.retracted he.symm
    case mpr =>
      intro hq
      by_cases hc : st = .confirmed
      case neg =>
        have he : s'.healthEvidence = s₁.healthEvidence :=
          hr.evidence.trans <| Table.update_eq_self <| by simp [hc]
        exact sameScheduling_of_core (hr.core.trans <| if_neg hc) he
      case pos =>
        have hq := hq st s' rfl (hr.state ▸ hc)
        have he : s'.healthEvidence = s₁.healthEvidence := by
          apply hr.evidence.trans
          apply Table.eq_of_update rfl
          intro e' hm ha
          have hx := hq.evidence e' hm (Bool.and_eq_true_iff.mp ha).right
          simp [← hx]
        have hp : s₁.core.poison (s₁.hasEvidence e.blueprintDigest e.inputFingerprint) = s₁.core :=
          Core.poison_eq_self_iff.mpr ⟨hq.runs, hq.items⟩
        exact sameScheduling_of_core (hr.core.trans <| (if_pos hc).trans hp) he

end Store

namespace Sample

-- The result that confirmed the input, once more.
def replayed : Op :=
  .recordHealthEvidence (failure 21 "second" 1000) 2 32 default 3000

def retriedPoison : List Action :=
  poisonedChild ++ [.store (.retryRun 201 2000)]

end Sample

namespace Store

open Sample

theorem replay_iff_poisoned : (after poisonedChild).store.isClassified 21 ∧
    (after poisonedChild).store.SameScheduling ((after poisonedChild).store.exec replayed) := by
  have hq : (after poisonedChild).store.Quiet "blueprint" "input" := ⟨by decide, by decide, by decide⟩
  exact ⟨by decide, (replay_iff rfl <| by decide).mpr fun _ _ _ _ => hq⟩

-- The run was retried by hand after the input had been confirmed, and fails before it is offered.
theorem replay_fails_retried_run : ∃ s : Store, s.Reachable ∧ s.isClassified 21 ∧
    (s.runs.get? 201).map (·.state) = some .queued ∧
    ((s.exec replayed).runs.get? 201).map (·.state) = some .failed :=
  ⟨(after retriedPoison).store, (reachable_after <| by decide).store, by decide, by decide, by decide⟩

end Store

end Scheduler
