import TaskScheduler.Coordinator.Retry
import TaskScheduler.Health.Reconciliation

namespace Scheduler

-- The message with which a node rejects an offer, and what the coordinator draws to handle it.
structure Rejection where
  attemptId  : Uuid
  leaseToken : String
  code       : String
  now        : Time
  draws      : Draws

-- Offers of one run, and rejections of them.
inductive OfferEvent
  | offer (agentId : String) (leaseSeconds : Nat) (attemptId : Uuid) (leaseToken : String)
      (now : Time)
  | reject (x : Rejection)

namespace Store

variable {f : Fingerprints} {s : Store} {context : AttemptHealthContext} {result : ExecutionResult}
variable {d : Draws}

-- The transaction that `record_attempt_result` comes to.
def judgement (s : Store) (f : Fingerprints) (context : AttemptHealthContext)
    (result : ExecutionResult) (d : Draws) : Option Op :=
  (context.evidence f result (s.nodeWasHealthy context.agentId)).map fun e =>
    .recordHealthEvidence e (s.poisonDistinctNodesForRun context.runId) d.id d.order d.now

theorem recordAttemptResult_persisted : (s.recordAttemptResult f context result d).persisted s =
    (s.judgement f context result d).elim s s.exec := by
  simp only [recordAttemptResult, judgement]
  split
  case h_1 he => simp [he, Transaction.bail]
  case h_2 e he => simp [he, exec]

theorem judgement_isEvidence {op : Op} (h : s.judgement f context result d = some op) :
    ∃ e nodes id order now, op = .recordHealthEvidence e nodes id order now := by
  have ⟨e, _, h⟩ := Option.map_eq_some_iff.mp h
  exact ⟨_, _, _, _, _, h.symm⟩

theorem rejectOffer_offered {s : Store} {id : Uuid} {a : Attempt} {token : String}
    (ha : s.attempts.get? id = some a) (hs : a.state = .offered) (ht : a.leaseToken = token)
    (result : ExecutionResult) (encrypted : Sealed ExecutionResult) (now : Time) :
    ∃ s', s.rejectOffer id token result encrypted now = .ok ((), s') ∧
      s'.runs.rows = s.runs.rows.map fun r =>
        if r.id = a.runId && r.state = .running then { r with state := .queued, notBefore := now }
        else r := by
  simp [rejectOffer, ha, hs, ht, Transaction.commit, requeueRun, Table.update]

end Store

namespace System

variable {σ : System} {r : Uuid} {x : Rejection}

-- `reject_offer` followed by `record_attempt_result`.
def reject (f : Fingerprints) (σ : System) (x : Rejection) : System :=
  match preacceptanceRejectionResult x.code x.now, σ.store.attemptHealthContext x.attemptId with
  | some result, some context =>
    let op := .rejectOffer x.attemptId x.leaseToken result (some result) x.draws.now
    match σ.store.rejectOffer x.attemptId x.leaseToken result (some result) x.draws.now with
    | .error _ => σ
    | .ok _    =>
      let σ₁ := σ.exec (.store op)
      (σ₁.store.judgement f context result x.draws).elim σ₁ fun op => σ₁.exec (.store op)
  | _, _ => σ

-- The evidence of the rejection confirms that the input of the run is poisoned.
def condemns (f : Fingerprints) (r : Uuid) (σ : System) (x : Rejection) : Bool :=
  match preacceptanceRejectionResult x.code x.now, σ.store.attemptHealthContext x.attemptId with
  | some result, some context =>
    let s₁ := σ.store.exec (.rejectOffer x.attemptId x.leaseToken result (some result) x.draws.now)
    (s₁.judgement f context result x.draws).any (s₁.poisonedBy · r)
  | _, _ => false

-- The run is on offer, and the node has a reason to reject it.
def Rejectable (r : Uuid) (σ : System) (x : Rejection) : Prop :=
  (preacceptanceRejection x.code).isSome ∧ ∃ a ∈ σ.store.attempts.get? x.attemptId,
    a.runId = r ∧ a.state = .offered ∧ a.leaseToken = x.leaseToken

instance : Decidable (σ.Rejectable r x) :=
  inferInstanceAs <| Decidable <| _ ∧ ∃ a ∈ σ.store.attempts.get? x.attemptId,
    a.runId = r ∧ a.state = .offered ∧ a.leaseToken = x.leaseToken

def offerStep (f : Fingerprints) (r : Uuid) (σ : System) : OfferEvent → System
  | .offer agentId lease id token now =>
    σ.exec (.store (.createAttempt r agentId lease id token now))
  | .reject x => σ.reject f x

end System

-- The coordinator as far as offers of one run are concerned that no node accepts.
def offering (f : Fingerprints) (r : Uuid) : Machine System OfferEvent where
  exec       := System.offerStep f r
  Enabled σ
    | .offer ..  => True
    | .reject x  => σ.Rejectable r x

instance {f : Fingerprints} {r : Uuid} {σ : System} {ev : OfferEvent} :
    Decidable ((offering f r).Enabled σ ev) :=
  match ev with
  | .offer ..  => .isTrue trivial
  | .reject x  => inferInstanceAs (Decidable (σ.Rejectable r x))

namespace System

variable {f : Fingerprints} {σ : System} {r : Uuid} {x : Rejection} {run : Run} {n : Nat}
variable {ev : OfferEvent} {evs : List OfferEvent}

-- The run has used `n` attempts and is not cancelled.
structure Counts (r : Uuid) (n : Nat) (σ : System) : Prop where
  reachable : σ.Reachable
  run       : ∃ run ∈ σ.store.runs, run.id = r ∧ run.attemptCount = n ∧ run.state ≠ .cancelled

theorem Counts.offer (h : σ.Counts r n) {agentId : String} {lease : Nat} {id : Uuid}
    {token : String} {now : Time} :
    (σ.exec (.store (.createAttempt r agentId lease id token now))).Counts r n := by
  have ⟨run, hr, hi, hn, hs⟩ := h.run
  have ha : σ.Enabled (.store (.createAttempt r agentId lease id token now)) := fun _ h => nomatch h
  have ⟨run', hr', hi'⟩ := exists_run hr (.store (.createAttempt r agentId lease id token now))
  have hc : coordinator.Enabled σ (.store (.createAttempt r agentId lease id token now)) := ha
  refine ⟨Machine.Reachable.exec h.reachable hc, run', hr', hi'.trans hi, ?_⟩
  cases h.reachable.exec_cases ha hr hr' hi'
  case inl he =>
    have he' : run'.state = run.state := congrArg Life.state he
    exact ⟨(congrArg Life.count he).trans hn, he' ▸ hs⟩
  case inr he =>
    have ⟨e, hm, _, hl⟩ := he
    cases hm
    refine ⟨(congrArg Life.count hl).trans hn, ?_⟩
    have hs : run'.state = .running := congrArg Life.state hl
    exact hs ▸ nofun

-- What a rejection does to the run before it is judged.
theorem Counts.rejectOffer (h : σ.Counts r n) (hx : σ.Rejectable r x) (result : ExecutionResult)
    (encrypted : Sealed ExecutionResult) (now : Time) :
    let op := Op.rejectOffer x.attemptId x.leaseToken result encrypted now
    let σ' := σ.exec (.store op)
    (∃ s', σ.store.rejectOffer x.attemptId x.leaseToken result encrypted now = .ok ((), s')) ∧
      σ'.Reachable ∧
      ∃ run ∈ σ'.store.runs, run.id = r ∧ run.attemptCount = n ∧ run.state = .queued := by
  intro op σ'
  have ⟨_, a, ha, hr, ho, ht⟩ := hx
  have ⟨run, hm, hi, hn, hs⟩ := h.run
  have hg : σ.store.runs.get? a.runId = some run := by
    rw [hr, ← hi]
    exact Table.get?_of_mem hm
  have hs : run.state = .running := by
    have ⟨run', hg', hx⟩ := h.reachable.run_of_active (Table.mem_of_get? ha) (ho ▸ rfl)
    obtain rfl : run' = run := Option.some.inj <| hg'.symm.trans hg
    exact hx.resolve_right hs
  have ⟨s', hx, hc⟩ := σ.store.rejectOffer_offered ha ho ht result encrypted now
  have hc' : coordinator.Enabled σ (.store op) := (fun _ h => nomatch h : σ.Enabled (.store op))
  have he : σ'.store = s' := by simp [σ', op, exec, Store.exec, hx]
  refine ⟨⟨s', hx⟩, Machine.Reachable.exec h.reachable hc', ?_⟩
  refine ⟨{ run with state := .queued, notBefore := now }, ?_, hi, hn, rfl⟩
  rw [he, ← Table.mem_rows, hc]
  exact List.mem_map.mpr ⟨run, hm, by simp [hs, hi, hr]⟩

theorem judged {context : AttemptHealthContext} {result : ExecutionResult} {d : Draws}
    (h : σ.Reachable)
    (hr : ∃ run ∈ σ.store.runs, run.id = r ∧ run.attemptCount = n ∧ run.state = .queued) :
    let op := σ.store.judgement f context result d
    let σ' := op.elim σ fun op => σ.exec (.store op)
    σ'.Reachable ∧ ∃ run ∈ σ'.store.runs, run.id = r ∧ run.attemptCount = n ∧
      run.state = if op.any (σ.store.poisonedBy · r) then .failed else .queued := by
  intro op σ'
  have ⟨run, hm, hi, hn, hs⟩ := hr
  cases hj : op
  case none => exact ⟨by simpa [σ', hj], run, by simpa [σ', hj], hi, hn, hs⟩
  case some op =>
    have ⟨e, nodes, id, order, now, ho⟩ := Store.judgement_isEvidence hj
    have ha : σ.Enabled (.store op) := ho ▸ fun _ h => nomatch h
    have hc : coordinator.Enabled σ (.store op) := ha
    have ⟨_, hp⟩ := exec_evidence hm e nodes id order now
    have hx : σ' = σ.exec (.store op) := by simp [σ', hj]
    rw [← ho, ← hx] at hp
    refine ⟨hx ▸ Machine.Reachable.exec h hc, _, hp, ?_⟩
    simp only [hs, hi, Option.any_some, decide_true, Bool.true_and]
    split
    case isTrue => exact ⟨rfl, hn, rfl⟩
    case isFalse => exact ⟨hi, hn, hs⟩

-- The run after a rejection has been judged.
theorem Counts.reject (h : σ.Counts r n) (hx : σ.Rejectable r x) : (σ.reject f x).Reachable ∧
    ∃ run ∈ (σ.reject f x).store.runs, run.id = r ∧ run.attemptCount = n ∧
      run.state = if σ.condemns f r x then .failed else .queued := by
  simp only [System.reject, condemns]
  have ⟨hc, a, ha, hr, _⟩ := hx
  have ⟨run, hm, hi, _⟩ := h.run
  have ⟨result, hc⟩ : ∃ result, preacceptanceRejectionResult x.code x.now = some result := by
    have ⟨_, hc⟩ := Option.isSome_iff_exists.mp hc
    exact ⟨_, Option.map_eq_some_iff.mpr ⟨_, hc, rfl⟩⟩
  have ⟨context, hg⟩ : ∃ context, σ.store.attemptHealthContext x.attemptId = some context := by
    have hg : σ.store.runs.get? a.runId = some run := by
      rw [hr, ← hi]
      exact Table.get?_of_mem hm
    exact ⟨_, Option.bind_eq_some_iff.mpr ⟨a, ha, Option.map_eq_some_iff.mpr ⟨run, hg, rfl⟩⟩⟩
  have ⟨⟨s', hx⟩, h⟩ := h.rejectOffer hx result (some result) x.draws.now
  simp only [hc, hg, hx]
  exact judged h.left h.right

theorem Counts.step (h : σ.Counts r n) (he : (offering f r).Enabled σ ev) :
    ((offering f r).exec σ ev).Counts r n := by
  cases ev
  case offer => exact h.offer
  case reject x =>
    have ⟨hr, run, hm, hi, hn, hs⟩ := h.reject (f := f) he
    refine ⟨hr, run, hm, hi, hn, ?_⟩
    rw [hs]
    split <;> nofun

end System

namespace Sample

def staffed : List Action := created ++
  [.store (.upsertAgent "first" "host" [] 1 0 0), .store (.upsertAgent "second" "host" [] 1 0 0)]

-- The run is offered to a node, which rejects it.
def rejecting (code : String) (id : Uuid) : Rejection where
  attemptId  := id
  leaseToken := "token"
  code       := code
  now        := 1000
  draws      := drawn id

def rejectedBy (code : String) (id : Uuid) (agentId : String) : List OfferEvent :=
  [.offer agentId 60 id "token" 1000, .reject (rejecting code id)]

end Sample

namespace System

open Sample

-- Two nodes reject the assignment by their policy.

end System

end Scheduler
