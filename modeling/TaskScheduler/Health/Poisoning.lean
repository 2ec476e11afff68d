import TaskScheduler.Store.Effects

namespace Scheduler

theorem Core.poison_none {c : Core} : c.poison (fun _ => false) = c := by
  have hi : c.poisonedItems (fun _ => false) = [] := by simp [poisonedItems, Table.select]
  have hr : (c.poison fun _ => false).runs = c.runs := Table.eq_of_update rfl <| by simp
  have ht : (c.poison fun _ => false).batchItems = c.batchItems := Table.eq_of_update rfl <| by simp
  have hb : (c.poison fun _ => false).batches = c.batches := Table.eq_of_update rfl <| by simp [hi]
  exact Core.ext hr rfl hb ht

namespace Store

variable {s : Store} {op : Op}

-- The runs with whose evidence a transaction confirms that their input is poisoned.
def poisonedBy (s : Store) : Op → Uuid → Bool
  | .recordHealthEvidence e nodes id order now, runId =>
    match s.insertEvidence e id now, s.recordHealthEvidence e nodes id order now with
    | .ok s₁, .ok r => r.1 = .confirmed && s₁.hasEvidence e.blueprintDigest e.inputFingerprint runId
    | _, _          => false
  | _, _ => false

-- Evidence changes the core only by what its confirmation does to the poisoned runs.
theorem recordHealthEvidence_poison {e nodes id order now} (s : Store) :
    (s.exec (.recordHealthEvidence e nodes id order now)).core =
      s.core.poison (s.poisonedBy (.recordHealthEvidence e nodes id order now)) := by
  simp only [exec]
  cases h : s.recordHealthEvidence e nodes id order now
  case error =>
    have hp : s.poisonedBy (.recordHealthEvidence e nodes id order now) = fun _ => false := by
      funext r
      cases hi : s.insertEvidence e id now <;> simp [poisonedBy, h, hi]
    rw [hp, Core.poison_none]
    rfl
  case ok r =>
    obtain ⟨s₁, hi, _, hx⟩ := recordHealthEvidence_core h
    have hp : s.poisonedBy (.recordHealthEvidence e nodes id order now) = fun runId =>
        r.1 = .confirmed && s₁.hasEvidence e.blueprintDigest e.inputFingerprint runId := by
      funext runId
      simp [poisonedBy, h, hi]
    rw [hp, Transaction.persisted, hx]
    split
    case isTrue hc => simp [hc]
    case isFalse hc => simp [hc, Core.poison_none]

end Store

end Scheduler
