import TaskScheduler.Rollups.Nodes
import TaskScheduler.Dispatch.Cap

namespace Scheduler

theorem AttemptState.not_isLeased_of_isConcluded {st : AttemptState} (h : st.isConcluded) :
    st.isLeased = false := by
  cases st <;> simp_all [isLeased, isConcluded]

-- The attempt of which a transaction writes the result.
def Op.resultOf : Op → Option Uuid
  | .rejectOffer id .. | .finishAttempt id .. | .finishExpiredAttempt id .. => some id
  | _                                                                       => none

-- What an attempt was created with.
def Attempt.ref (a : Attempt) : Uuid × Uuid × String × String :=
  (a.id, a.runId, a.agentId, a.leaseToken)

namespace Core

variable {c c' : Core} {op : Op} {entries : List LogEntry} {a : Attempt}

-- The update of an attempt that holds a lease does not touch one that does not.
theorem mem_of_not_isLeased {t : Table Attempt} {id : Uuid} {f : Attempt → Attempt} {b : Attempt}
    (ha : a ∈ c.attempts) (hn : a.state.isLeased = false) (hb : c.attempts.get? id = some b)
    (hc : b.state.isLeased)
    (ht : t.rows = c.attempts.rows.map fun x => if decide (x.id = id) then f x else x) : a ∈ t := by
  rw [← Table.mem_rows, ht]
  refine List.mem_map.mpr ⟨a, ha, if_neg fun hk => ?_⟩
  have he : a = b := Table.key_injOn ha (Table.mem_of_get? hb) <|
    (of_decide_eq_true hk).trans (Table.key_of_get? hb).symm
  simp [← he, hn] at hc

-- Only a result changes an attempt that has lost its lease.
theorem Step.mem_of_not_isLeased (hs : c.Step op entries c') (ho : op.resultOf = none)
    (ha : a ∈ c.attempts) (hn : a.state.isLeased = false) : a ∈ c'.attempts := by
  cases hs
  case finish | finishExpired | reject => exact nomatch ho
  case offer hi =>
    rw [sync_attempts]
    exact (Table.mem_of_insert hi).mpr <| .inl ha
  case release hb hx =>
    rw [sync_attempts]
    exact Core.mem_of_not_isLeased ha hn hb (hx ▸ rfl) rfl
  case accept hb hx _ hk =>
    subst hk
    exact Core.mem_of_not_isLeased ha hn hb hx rfl
  case expire hb hx => exact Core.mem_of_not_isLeased ha hn hb hx rfl
  case renew p hp lease =>
    refine List.mem_map.mpr ⟨a, ha, if_neg fun hx => ?_⟩
    simp [hp a ha hx, AttemptState.isLeased] at hn
  case finalize hm _ => exact hm.attempts ▸ ha
  case cancelRun | retryRun =>
    rw [sync_attempts]
    exact ha
  all_goals exact ha

-- A row that an update left over is one that it did not touch.
theorem mem_of_mem_update {t t' : Table Attempt} {p : Attempt → Bool} {f : Attempt → Attempt}
    (ht : t'.rows = t.rows.map fun x => if p x then f x else x)
    (hf : ∀ x ∈ t, p x → (f x).state.isConcluded = false) (ha : a ∈ t') (hc : a.state.isConcluded) :
    a ∈ t := by
  rw [← Table.mem_rows, ht] at ha
  have ⟨b, hb, he⟩ := List.mem_map.mp ha
  split at he
  case isTrue hp => simp [← he, hf b hb hp] at hc
  case isFalse => exact he ▸ hb

-- Only a result ends an attempt.
theorem Step.mem_of_concluded (hs : c.Step op entries c') (ho : op.resultOf = none)
    (ha : a ∈ c'.attempts) (hc : a.state.isConcluded) : a ∈ c.attempts := by
  cases hs
  case finish | finishExpired | reject => exact nomatch ho
  case offer hx _ _ hi =>
    rw [sync_attempts] at ha
    cases (Table.mem_of_insert hi).mp ha
    case inl h => exact h
    case inr h => simp [h, hx, AttemptState.isConcluded] at hc
  case release =>
    rw [sync_attempts] at ha
    exact mem_of_mem_update rfl (fun _ _ _ => rfl) ha hc
  case accept hk =>
    subst hk
    exact mem_of_mem_update rfl (fun _ _ _ => rfl) ha hc
  case expire => exact mem_of_mem_update rfl (fun _ _ _ => rfl) ha hc
  case renew p hp lease =>
    refine mem_of_mem_update rfl (fun x hx hb => ?_) ha hc
    simp [hp x hx hb, AttemptState.isConcluded]
  case finalize hm _ => exact hm.attempts ▸ ha
  case cancelRun | retryRun =>
    rw [sync_attempts] at ha
    exact ha
  all_goals exact ha

theorem same_refs {t t' : Table Attempt} {p : Attempt → Bool} {f : Attempt → Attempt}
    (ht : t'.rows = t.rows.map fun x => if p x then f x else x) (hf : ∀ x, (f x).ref = x.ref) :
    Table.Same Attempt.ref t t' :=
  .of_update ht fun x _ _ => hf x

-- Attempts are created for runs that exist, and keep what they were created with.
theorem Step.extends_attempts (h : c.Step op entries c') :
    Table.Extends Attempt.ref (fun x => (c.runs.get? x.2.1).isSome) c.attempts c'.attempts := by
  cases h
  case offer hr _ _ _ _ hi =>
    rw [sync_attempts]
    exact .of_insert hi (by simp [Attempt.ref, hr])
  case release | reject =>
    rw [sync_attempts]
    exact .of_same <| same_refs rfl fun _ => rfl
  case accept hk =>
    subst hk
    exact .of_same <| same_refs rfl fun _ => rfl
  case expire | renew => exact .of_same <| same_refs rfl fun _ => rfl
  case finish h | finishExpired h =>
    cases h
    case late => exact .of_same <| same_refs rfl fun _ => rfl
    case applied =>
      rw [sync_attempts]
      exact .of_same <| same_refs rfl fun _ => rfl
  case finalize hm _ =>
    have he : _ = c.attempts := hm.attempts
    exact .of_same <| he ▸ .refl
  case cancelRun | retryRun =>
    rw [sync_attempts]
    exact .of_same .refl
  all_goals exact .of_same .refl

end Core

namespace Attempt

-- The attempt is over, with this result.
structure Shows (a : Attempt) (result : ExecutionResult) (encrypted : Sealed ExecutionResult) :
    Prop where
  concluded  : a.state.isConcluded
  outcome    : a.outcome = some result.outcome
  diagnostic : a.diagnostic = result.diagnostic
  encrypted  : a.encryptedResult = some encrypted

end Attempt

namespace Store

variable {s s' : Store} {a b : Attempt} {result : ExecutionResult} {id : Uuid} {token : String}
variable {encrypted : Sealed ExecutionResult} {op : Op} {now : Time} {random : Nat}

-- The result is written to the row of an attempt that was not over yet.
structure Settles (s : Store) (a : Attempt) (result : ExecutionResult)
    (encrypted : Sealed ExecutionResult) (s' : Store) : Prop where
  attempt : s.attempts.get? a.id = some a
  pending : a.state.isConcluded = false
  rows    : ∃ f : Attempt → Attempt, (f a).Shows result encrypted ∧
    ((f a).id, (f a).runId, (f a).agentId) = (a.id, a.runId, a.agentId) ∧
    s'.attempts.rows = s.attempts.rows.map fun b => if b.id = a.id then f b else b

namespace Settles

theorem exists_mem (h : s.Settles a result encrypted s') :
    ∃ b ∈ s'.attempts, b.id = a.id ∧ b.Shows result encrypted := by
  have ⟨f, hf, hk, ht⟩ := h.rows
  refine ⟨f a, ?_, congrArg Prod.fst hk, hf⟩
  rw [← Table.mem_rows, ht]
  exact List.mem_map.mpr ⟨a, Table.mem_of_get? h.attempt, if_pos rfl⟩

theorem eq_or_shows (h : s.Settles a result encrypted s') (hb : b ∈ s'.attempts) :
    b ∈ s.attempts ∧ b.id ≠ a.id ∨
      (b.id, b.runId, b.agentId) = (a.id, a.runId, a.agentId) ∧ b.Shows result encrypted := by
  have ⟨f, hf, hk, ht⟩ := h.rows
  rw [← Table.mem_rows, ht] at hb
  have ⟨b', hm, he⟩ := List.mem_map.mp hb
  split at he
  case isTrue hi =>
    obtain rfl : b' = a := Table.key_injOn hm (Table.mem_of_get? h.attempt) hi
    subst he
    exact .inr ⟨hk, hf⟩
  case isFalse hn =>
    subst he
    exact .inl ⟨hm, hn⟩

theorem mem_of_ne (h : s.Settles a result encrypted s') (hb : b ∈ s.attempts) (hn : b.id ≠ a.id) :
    b ∈ s'.attempts := by
  have ⟨f, _, _, ht⟩ := h.rows
  rw [← Table.mem_rows, ht]
  exact List.mem_map.mpr ⟨b, hb, if_neg hn⟩

end Settles

theorem finishAttemptInner_settles {expired : Bool} {st : Option RunState}
    (h : s.finishAttemptInner id token result encrypted expired random now = .ok (st, s')) :
    ∃ a, s.attempts.get? id = some a ∧ a.leaseToken = token ∧
      (s' = s ∧ (if expired then st = none else a.state = .expiring ∨ a.state.isConcluded) ∨
        Concludable expired a.state ∧ s.Settles a result encrypted s') := by
  simp only [finishAttemptInner] at h
  repeat' split at h
  all_goals cases h
  case _ a ha _ _ _ hk h =>
    obtain ⟨hx, _⟩ := Bool.and_eq_true_iff.mp h
    exact ⟨a, ha, not_not.mp hk, .inl ⟨rfl, by simp [hx]⟩⟩
  case _ a ha _ _ _ hk _ h => exact ⟨a, ha, not_not.mp hk, .inl ⟨rfl, by simp_all⟩⟩
  case _ a ha _ _ _ hk h₁ _ h =>
    refine ⟨a, ha, not_not.mp hk, .inl ⟨rfl, ?_⟩⟩
    cases expired <;> cases hs : a.state <;> simp_all [AttemptState.isConcluded]
  case _ a ha _ _ _ hk h₁ h₂ h₃ _ =>
    obtain rfl : a.id = id := Table.key_of_get? ha
    have hc := concludable h₁ h₂ h₃
    refine ⟨a, ha, not_not.mp hk, .inr ⟨hc, ha, not_isConcluded hc, ?_⟩⟩
    refine ⟨(·.recordResult .lateResult result encrypted), ⟨rfl, rfl, rfl, rfl⟩, rfl, ?_⟩
    simp [recordLateResult, appendAudit, updateNodeProcessingStats, Table.update]
  case _ a ha _ run _ hk h₁ h₂ h₃ _ =>
    obtain rfl : a.id = id := Table.key_of_get? ha
    have hc := concludable h₁ h₂ h₃
    refine ⟨a, ha, not_not.mp hk, .inr ⟨hc, ha, not_isConcluded hc, ?_⟩⟩
    refine ⟨(·.recordResult .finished result encrypted), ⟨rfl, rfl, rfl, rfl⟩, rfl, ?_⟩
    have ht : (s.applyResult a run result encrypted random now).attempts =
        s.attempts.update (·.id = a.id) (·.recordResult .finished result encrypted) := by
      simp only [applyResult, appendAudit_attempts, syncBatchRunState_attempts]
      rfl
    simp [ht, Table.update]

theorem finishAttempt_settles {st : RunState}
    (h : s.finishAttempt id token result encrypted random now = .ok (st, s')) :
    ∃ a, s.attempts.get? id = some a ∧ a.leaseToken = token ∧
      (s' = s ∧ (a.state = .expiring ∨ a.state.isConcluded) ∨
        a.state ≠ .expiring ∧ s.Settles a result encrypted s') := by
  simp only [finishAttempt] at h
  split at h
  case h_1 | h_2 => contradiction
  case h_3 hi =>
    cases h
    obtain ⟨a, ha, hk, h⟩ := finishAttemptInner_settles hi
    refine ⟨a, ha, hk, h.imp_right fun h => ⟨?_, h.right⟩⟩
    exact (show _ ∧ _ ∧ _ from h.left).left

theorem finishExpiredAttempt_settles {st : RunState}
    (h : s.finishExpiredAttempt id token result encrypted random now = .ok (some st, s')) :
    ∃ a, s.attempts.get? id = some a ∧ s.Settles a result encrypted s' := by
  have ⟨a, ha, _, h⟩ := finishAttemptInner_settles h
  cases h
  case inl h => exact nomatch h.right
  case inr h => exact ⟨a, ha, h.right⟩

theorem finishExpiredAttempt_none
    (h : s.finishExpiredAttempt id token result encrypted random now = .ok (none, s')) :
    s' = s := by
  simp only [finishExpiredAttempt, finishAttemptInner] at h
  repeat' split at h
  all_goals cases h
  rfl

theorem rejectOffer_settles (h : s.rejectOffer id token result encrypted now = .ok ((), s')) :
    ∃ a, s.attempts.get? id = some a ∧ s.Settles a result encrypted s' := by
  simp only [rejectOffer] at h
  repeat' split at h
  all_goals cases h
  case _ a ha hn =>
    obtain rfl : a.id = id := Table.key_of_get? ha
    obtain ⟨_, ho⟩ : a.leaseToken = token ∧ a.state = .offered := by simpa using hn
    refine ⟨a, ha, ha, by simp [ho, AttemptState.isConcluded], (·.reject result encrypted now), ?_⟩
    refine ⟨⟨rfl, rfl, rfl, rfl⟩, rfl, ?_⟩
    simp [requeueRun, Table.update]

theorem mem_of_exec_concluded (ho : op.resultOf = none) (ha : a ∈ (s.exec op).attempts)
    (hc : a.state.isConcluded) : a ∈ s.attempts :=
  (s.exec_step op).mem_of_concluded ho ha hc

theorem exec_settles (ho : op.resultOf = some id) :
    s.exec op = s ∨ ∃ a result encrypted, a.id = id ∧ s.Settles a result encrypted (s.exec op) := by
  cases op <;> cases ho
  case rejectOffer token result encrypted now =>
    simp only [exec]
    cases h : s.rejectOffer id token result encrypted now
    case error => exact .inl rfl
    case ok r =>
      obtain ⟨a, ha, hs⟩ := rejectOffer_settles h
      exact .inr ⟨a, _, _, Table.key_of_get? ha, hs⟩
  case finishAttempt token result encrypted random now =>
    simp only [exec]
    cases h : s.finishAttempt id token result encrypted random now
    case error => exact .inl rfl
    case ok r =>
      obtain ⟨a, ha, _, hs⟩ := finishAttempt_settles h
      exact hs.imp And.left fun hs => ⟨a, _, _, Table.key_of_get? ha, hs.right⟩
  case finishExpiredAttempt token result encrypted random now =>
    simp only [exec, finishExpiredAttempt]
    cases h : s.finishAttemptInner id token result encrypted true random now
    case error => exact .inl rfl
    case ok r =>
      obtain ⟨a, ha, _, hs⟩ := finishAttemptInner_settles h
      exact hs.imp And.left fun hs => ⟨a, _, _, Table.key_of_get? ha, hs.right⟩

-- Nothing touches an attempt that is over.
theorem exec_mem_of_isConcluded (ha : a ∈ s.attempts) (hc : a.state.isConcluded) :
    a ∈ (s.exec op).attempts := by
  cases ho : op.resultOf
  case none =>
    have hn := AttemptState.not_isLeased_of_isConcluded hc
    exact (s.exec_step op).mem_of_not_isLeased ho ha hn
  case some =>
    cases exec_settles (s := s) ho
    case inl hs =>
      rw [hs]
      exact ha
    case inr hs =>
      have ⟨b, _, _, _, hs⟩ := hs
      apply hs.mem_of_ne ha
      intro hk
      obtain rfl : a = b := Table.key_injOn ha (Table.mem_of_get? hs.attempt) hk
      simp [hs.pending] at hc

-- Attempts belong to runs, and those that are over have a result.
structure Backed (s : Store) : Prop where
  runs    : ∀ a ∈ s.attempts, (s.runs.get? a.runId).isSome
  results : ∀ a ∈ s.attempts, a.state.isConcluded → a.encryptedResult.isSome

theorem Backed.exec (h : s.Backed) : (s.exec op).Backed where
  runs := by
    intro b hb
    have hr {r : Uuid} (hr : (s.runs.get? r).isSome) : ((s.exec op).runs.get? r).isSome := by
      obtain ⟨_, hr⟩ := Option.isSome_iff_exists.mp hr
      obtain ⟨_, hr, _⟩ := exec_get? op hr
      simp [hr]
    apply hr
    cases (s.exec_step op).extends_attempts.exists_left hb
    case inl h' =>
      obtain ⟨a, ha, he⟩ := h'
      have hk : a.runId = b.runId := congrArg (·.2.1) he
      exact hk ▸ h.runs a ha
    case inr h' => exact h'
  results := by
    intro b hb hc
    cases ho : op.resultOf
    case none => exact h.results b (mem_of_exec_concluded ho hb hc) hc
    case some =>
      cases exec_settles (s := s) ho
      case inl hs => exact h.results b (hs ▸ hb) hc
      case inr hs =>
        obtain ⟨a, result, encrypted, _, hs⟩ := hs
        cases hs.eq_or_shows hb
        case inl hb => exact h.results b hb.left hc
        case inr hb => simp [hb.right.encrypted]

theorem Reachable.backed (h : s.Reachable) : s.Backed := by
  apply h.invariant (I := Backed) (fun _ _ h _ => h.exec)
  exact ⟨fun _ h => absurd h Table.not_mem_empty, fun _ h => absurd h Table.not_mem_empty⟩

end Store

end Scheduler
