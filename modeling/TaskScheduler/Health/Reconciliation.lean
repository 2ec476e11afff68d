import TaskScheduler.Health.Agreement
import TaskScheduler.Store.Queue

namespace Scheduler

structure UnclassifiedAttempt where
  context         : AttemptHealthContext
  encryptedResult : Sealed ExecutionResult
  deriving DecidableEq, Repr

-- `ORDER BY a.finished_at,a.id`, where missing times come first.
def Attempt.finishOrder (a : Attempt) : WithBot Time ×ₗ Uuid :=
  toLex (a.finishedAt, a.id)

namespace Store

variable (s : Store) (f : Fingerprints)

def unclassifiedAttempts (limit : Nat) : List UnclassifiedAttempt :=
  s.attempts.select (fun a => s.needsEvidence a && (s.runs.get? a.runId).isSome)
    |> Ranking.first Attempt.finishOrder (min (max limit 1) 1000)
    |>.filterMap fun a => (s.attemptHealthContext a.id).bind fun context =>
      a.encryptedResult.map (⟨context, ·⟩)

-- The reads of `record_attempt_result` and its transaction, with nothing in between.
def recordAttemptResult (context : AttemptHealthContext) (result : ExecutionResult) (d : Draws) :
    Transaction InputHealthState :=
  match context.evidence f result (s.nodeWasHealthy context.agentId) with
  | none   => .bail "persisted execution snapshot is invalid"
  | some e =>
    s.recordHealthEvidence e (s.poisonDistinctNodesForRun context.runId) d.id d.order d.now

-- The loop of a pass, and whether it came to its end.
def reconcileRows (draws : Uuid → Draws) : Store → List UnclassifiedAttempt → Bool × Store
  | s, []          => (true, s)
  | s, row :: rows =>
    match row.encryptedResult with
    | none        => (false, s)
    | some result =>
      match s.recordAttemptResult f row.context result (draws row.context.attemptId) with
      | .error _    => (false, s)
      | .ok (_, s') => reconcileRows draws s' rows

def reconcileUnclassified (draws : Uuid → Draws) : Option Nat × Store :=
  let rows := s.unclassifiedAttempts 500
  let (completed, s') := s.reconcileRows f draws rows
  (if completed then some rows.length else none, s')

-- Passes one after the other. One that fails leaves what it has done so far.
def reconcilePasses (passes : List (Uuid → Draws)) : Store :=
  passes.foldl (fun s draws => (s.reconcileUnclassified f draws).2) s

variable {s f} {s' : Store} {context : AttemptHealthContext} {result : ExecutionResult} {d : Draws}
variable {op : Op} {st : InputHealthState}

-- No attempt is classified twice.
def Single (s : Store) : Prop :=
  ∀ e₁ ∈ s.healthEvidence, ∀ e₂ ∈ s.healthEvidence, ∀ id, e₁.attemptId = some id →
    e₂.attemptId = some id → e₁ = e₂

theorem Single.recorded {e : NewHealthEvidence} {nodes : Nat} {id : Uuid} {order : HashOrder}
    {now : Time} {s₁ : Store} (h : s.Single) (hr : s.Recorded e nodes id order now s₁ st s') :
    s'.Single := by
  have h₁ : s₁.Single := by
    cases insertEvidence_cases hr.inserted
    case inl hs => exact hs ▸ h
    case inr hs =>
      have ⟨_, hn, hi, hs⟩ := hs
      intro e₁ he₁ e₂ he₂ a h₁ h₂
      rw [hs] at he₁ he₂
      have hc {x : HealthEvidence} (hx : x ∈ s.healthEvidence) (ha : x.attemptId = some a)
          (he : e.attemptId = some a) : False := by
        have hc := isClassified_iff.mpr ⟨x, hx, ha⟩
        simp [hn a he] at hc
      cases (Table.mem_of_insert hi).mp he₁ <;> cases (Table.mem_of_insert hi).mp he₂
      case inl.inl he₁ he₂ => exact h e₁ he₁ e₂ he₂ a h₁ h₂
      case inl.inr he₁ he₂ =>
        rw [he₂] at h₂
        exact (hc he₁ h₁ h₂).elim
      case inr.inl he₁ he₂ =>
        rw [he₁] at h₁
        exact (hc he₂ h₂ h₁).elim
      case inr.inr he₁ he₂ => exact he₁.trans he₂.symm
  intro e₁ he₁ e₂ he₂ a h₁' h₂'
  have ⟨x₁, hx₁, hy₁⟩ := hr.mem_evidence he₁
  have ⟨x₂, hx₂, hy₂⟩ := hr.mem_evidence he₂
  rw [hy₁] at h₁'
  rw [hy₂] at h₂'
  have hx := h₁ x₁ hx₁ x₂ hx₂ a h₁' h₂'
  apply Table.key_injOn he₁ he₂
  rw [hy₁, hy₂, hx]
  rfl

theorem Single.exec (h : s.Single) : (s.exec op).Single := by
  cases ho : op.isEvidence
  case false =>
    rw [Single, exec_healthEvidence ho]
    exact h
  case true =>
    cases op <;> try contradiction
    case recordHealthEvidence e nodes id order now =>
      simp only [Store.exec]
      cases hr : s.recordHealthEvidence e nodes id order now
      case error => exact h
      case ok r =>
        obtain ⟨st, s'⟩ := r
        obtain ⟨s₁, hr⟩ := Store.recorded hr
        exact h.recorded hr

theorem Reachable.single (h : s.Reachable) : s.Single :=
  h.invariant (I := Single) (fun _ _ h _ => h.exec) fun _ h => absurd h Table.not_mem_empty

-- What a classification changes.
structure Classifies (s : Store) (attemptId : Uuid) (s' : Store) : Prop where
  exec       : ∃ op, s.exec op = s'
  attempts   : s'.attempts = s.attempts
  classified : ∀ id, s'.isClassified id → s.isClassified id ∨ id = attemptId

theorem recordAttemptResult_classifies
    (h : s.recordAttemptResult f context result d = .ok (st, s')) :
    s.Classifies context.attemptId s' := by
  simp only [recordAttemptResult] at h
  split at h
  case h_1 => contradiction
  case h_2 e he =>
    have hx : s.exec (.recordHealthEvidence e (s.poisonDistinctNodesForRun context.runId) d.id
      d.order d.now) = s' := by simp [Store.exec, h]
    obtain ⟨s₁, hr⟩ := Store.recorded h
    refine ⟨⟨_, hx⟩, hr.attempts, fun id hi => ?_⟩
    obtain ⟨x, hx, hk⟩ := isClassified_iff.mp hi
    obtain ⟨y, hy, hz⟩ := hr.mem_evidence hx
    rw [hz] at hk
    cases eq_row_of_insertEvidence hr.inserted hy
    case inl hy => exact .inl <| isClassified_iff.mpr ⟨y, hy, hk⟩
    case inr hy =>
      obtain ⟨_, _, he⟩ := Option.map_eq_some_iff.mp he
      subst he hy
      exact .inr (Option.some.inj hk).symm

-- What the passes change: they classify finished attempts.
structure Reconciles (s s' : Store) : Prop where
  reachable  : s.Reachable → s'.Reachable
  attempts   : s'.attempts = s.attempts
  kept       : ∀ id, s.isClassified id → s'.isClassified id
  classified : ∀ id, s'.isClassified id →
    s.isClassified id ∨ ∃ a ∈ s.attempts, a.id = id ∧ a.state = .finished

theorem Reconciles.refl : s.Reconciles s :=
  ⟨id, rfl, fun _ => id, fun _ => .inl⟩

theorem Reconciles.trans {s₁ : Store} (h₁ : s.Reconciles s₁) (h₂ : s₁.Reconciles s') :
    s.Reconciles s' where
  reachable  := h₂.reachable ∘ h₁.reachable
  attempts   := h₂.attempts.trans h₁.attempts
  kept       := fun id hi => h₂.kept id <| h₁.kept id hi
  classified := fun id hi => (h₂.classified id hi).elim (h₁.classified id) (.inr <| h₁.attempts ▸ ·)

theorem Classifies.reconciles {id : Uuid} (h : s.Classifies id s')
    (ha : ∃ a ∈ s.attempts, a.id = id ∧ a.state = .finished) : s.Reconciles s' := by
  have ⟨op, hx⟩ := h.exec
  constructor
  case reachable => exact fun hs => hx ▸ hs.exec op
  case attempts => exact h.attempts
  case kept => exact fun id hi => hx ▸ isClassified_exec hi
  case classified =>
    intro id hi
    apply (h.classified id hi).imp_right
    rintro rfl
    exact ha

theorem needsEvidence_finished {a : Attempt} (h : s.needsEvidence a) : a.state = .finished := by
  have ⟨h, _⟩ := Bool.and_eq_true_iff.mp h
  exact of_decide_eq_true (Bool.and_eq_true_iff.mp h).left

theorem mem_unclassifiedAttempts {limit : Nat} {row : UnclassifiedAttempt}
    (h : row ∈ s.unclassifiedAttempts limit) :
    ∃ a ∈ s.attempts, a.id = row.context.attemptId ∧ a.state = .finished := by
  have ⟨a, ha, h⟩ := List.mem_filterMap.mp h
  have ⟨context, hc, h⟩ := Option.bind_eq_some_iff.mp h
  have ⟨_, _, h⟩ := Option.map_eq_some_iff.mp h
  subst h
  have ⟨hm, hn⟩ := Table.mem_select.mp <| Ranking.mem_of_mem_first ha
  have hn := needsEvidence_finished (Bool.and_eq_true_iff.mp hn).left
  exact ⟨a, hm, (attemptHealthContext_attemptId hc).symm, hn⟩

-- A pass that selects nothing has nothing left to do.
theorem not_needsEvidence_of_nil {limit : Nat} {a : Attempt} (hb : s.Backed)
    (h : s.unclassifiedAttempts limit = []) (ha : a ∈ s.attempts) : s.needsEvidence a = false := by
  by_contra hn
  have hn : s.needsEvidence a := by simpa using hn
  let selected (a : Attempt) : Bool := s.needsEvidence a && (s.runs.get? a.runId).isSome
  have hs : a ∈ s.attempts.select selected :=
    Table.mem_select.mpr ⟨ha, Bool.and_eq_true_iff.mpr ⟨hn, hb.runs a ha⟩⟩
  have ⟨b, hm⟩ := List.exists_mem_of_ne_nil _ <| Ranking.first_ne_nil (f := Attempt.finishOrder)
    (n := min (max limit 1) 1000) (by omega) hs
  have hx := List.filterMap_eq_nil_iff.mp h b hm
  have ⟨hm, hn⟩ := Table.mem_select.mp <| Ranking.mem_of_mem_first hm
  have ⟨hn, hr⟩ := Bool.and_eq_true_iff.mp hn
  have ⟨run, hr⟩ := Option.isSome_iff_exists.mp hr
  have ⟨hn, _⟩ := Bool.and_eq_true_iff.mp hn
  have ⟨result, hr'⟩ := Option.isSome_iff_exists.mp (Bool.and_eq_true_iff.mp hn).right
  have hg : s.attempts.get? b.id = some b := Table.get?_of_mem hm
  simp [attemptHealthContext, hg, hr, hr'] at hx

theorem reconcileRows_reconciles {draws : Uuid → Draws} {rows : List UnclassifiedAttempt}
    (h : ∀ row ∈ rows, ∃ a ∈ s.attempts, a.id = row.context.attemptId ∧ a.state = .finished) :
    s.Reconciles (s.reconcileRows f draws rows).2 := by
  induction rows generalizing s
  case nil => exact .refl
  case cons row rows hi =>
    simp only [reconcileRows]
    split
    case h_1 => exact .refl
    case h_2 =>
      split
      case h_1 => exact .refl
      case h_2 hr =>
        have hc := recordAttemptResult_classifies hr
        apply (hc.reconciles <| h row List.mem_cons_self).trans
        apply hi
        rw [hc.attempts]
        exact fun row hm => h row <| List.mem_cons_of_mem _ hm

theorem reconcilePasses_reconciles {passes : List (Uuid → Draws)} :
    s.Reconciles (s.reconcilePasses f passes) := by
  induction passes generalizing s
  case nil => exact .refl
  case cons draws passes hi =>
    exact (reconcileRows_reconciles fun _ hm => mem_unclassifiedAttempts hm).trans hi

-- Every attempt that is over is classified once, and no run waits for a classification.
structure Reconciled (s : Store) (now : Time) : Prop where
  evidence : ∀ a ∈ s.attempts, a.state.isConcluded →
    ∃! e, e ∈ s.healthEvidence ∧ e.attemptId = some a.id
  due      : ∀ run ∈ s.runs, run.state = .queued → run.notBefore ≤ now → s.isFenced run.id = false

end Store

namespace Handlers

variable {f : Fingerprints} {st : Handlers}

-- The last pass selects nothing, so it leaves the store as it is.
theorem reconciled_iff (h : (handling f).Reachable .initial st) {passes : List (Uuid → Draws)}
    {draws : Uuid → Draws} {now : Time}
    (hz : ((st.store.reconcilePasses f passes).reconcileUnclassified f draws).1 = some 0) :
    (st.store.reconcilePasses f passes).Reconciled now ↔
      ∀ a ∈ st.store.attempts, a.state = .lateResult → st.store.isClassified a.id := by
  have hc : st.store.Reconciles (st.store.reconcilePasses f passes) :=
    Store.reconcilePasses_reconciles
  generalize st.store.reconcilePasses f passes = s at hz hc
  have hr := hc.reachable (store_reachable h)
  have hn : s.unclassifiedAttempts 500 = [] := by
    simp only [Store.reconcileUnclassified] at hz
    split at hz
    case isTrue => simpa using hz
    case isFalse => contradiction
  have hf {a} (ha : a ∈ s.attempts) (hs : a.state = .finished) : s.isClassified a.id := by
    have hn := Store.not_needsEvidence_of_nil hr.backed hn ha
    have hx := hr.backed.results a ha (by simp [hs, AttemptState.isConcluded])
    simpa [Store.needsEvidence, hs, hx] using hn
  constructor
  case mp =>
    intro hd a ha hs
    obtain ⟨e, ⟨he, hi⟩, _⟩ :=
      hd.evidence a (hc.attempts ▸ ha) (by simp [hs, AttemptState.isConcluded])
    cases hc.classified a.id <| Store.isClassified_iff.mpr ⟨e, he, hi⟩
    case inl hk => exact hk
    case inr hk =>
      obtain ⟨b, hb, hk, hx⟩ := hk
      obtain rfl : b = a := Table.key_injOn hb ha hk
      simp [hs] at hx
  case mpr =>
    intro hl
    constructor
    case evidence =>
      intro a ha hs
      have hk : s.isClassified a.id := by
        cases hx : a.state <;> simp [hx, AttemptState.isConcluded] at hs
        case finished => exact hf ha hx
        case lateResult => exact hc.kept _ <| hl a (hc.attempts ▸ ha) hx
      obtain ⟨e, he, hi⟩ := Store.isClassified_iff.mp hk
      exact ⟨e, ⟨he, hi⟩, fun x h => hr.single x h.left e he a.id h.right hi⟩
    case due =>
      intro run _ _ _
      by_contra hk
      have hk : s.isFenced run.id := by simpa using hk
      obtain ⟨a, ha, hk⟩ := List.any_eq_true.mp hk
      obtain ⟨_, hk⟩ := Bool.and_eq_true_iff.mp hk
      simp only [Store.isUnclassified, Bool.and_eq_true, decide_eq_true_eq] at hk
      have hx := hf ha hk.left.left.left
      have hn : s.isClassified a.id = false := (Bool.not_eq_true' _).mp hk.right
      simp [hx] at hn

end Handlers

namespace Sample

-- The coordinator stops after it has stored the result.
def interrupted : List HandlerEvent :=
  executing ++ [.result 0 20 "token" (result .failed), .step 0 (drawn 1000), .crash]

-- The same for a run that was cancelled in the meantime.
def interruptedLate : List HandlerEvent :=
  executing ++ [.store (.cancelRun 10 500), .result 0 20 "token" (result .failed),
    .step 0 (drawn 1000), .crash]

end Sample

namespace Handlers

open Sample

theorem reconciled_iff_interrupted : (handled interrupted).store.isClassified 20 = false ∧
    ((handled interrupted).store.reconcilePasses fingerprints [fun _ => drawn 2000]).Reconciled
      10000 := by
  have hr : (handling fingerprints).Reachable .initial (handled interrupted) :=
    ⟨interrupted, by decide, rfl⟩
  have hz : (((handled interrupted).store.reconcilePasses fingerprints
      [fun _ => drawn 2000]).reconcileUnclassified fingerprints fun _ => drawn 3000).1 = some 0 :=
    rfl
  exact ⟨by decide, (reconciled_iff hr hz).mpr <| by decide⟩

theorem late_result_stays_unclassified : ∃ st, (handling fingerprints).Reachable .initial st ∧
    st.store.reconcileUnclassified fingerprints (fun _ => drawn 2000) = (some 0, st.store) ∧
    ∃ a ∈ st.store.attempts, a.state = .lateResult ∧ st.store.isClassified a.id = false :=
  ⟨handled interruptedLate, ⟨interruptedLate, by decide, rfl⟩, rfl, by decide⟩

end Handlers

end Scheduler
