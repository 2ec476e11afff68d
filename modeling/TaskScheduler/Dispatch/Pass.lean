import TaskScheduler.Dispatch.Selection
import TaskScheduler.Dispatch.Sessions

namespace Scheduler

namespace Store

variable {s s' s₁ : Store} {runId id : Uuid} {agentId token : String} {lease : Nat} {now : Time} {a : Attempt}

-- What decides on other runs stays as it is when a run is offered.
structure Serves (s s' : Store) : Prop where
  evidence : s'.healthEvidence = s.healthEvidence
  fenced   : ∀ r, s'.isFenced r = s.isFenced r
  caps     : Table.Same (fun b => (b.id, b.maxActiveRuns)) s.batches s'.batches

namespace Serves

theorem refl : Serves s s :=
  ⟨rfl, fun _ => rfl, .refl⟩

theorem trans (h₁ : Serves s s₁) (h₂ : Serves s₁ s') : Serves s s' where
  evidence := h₂.evidence.trans h₁.evidence
  fenced r := (h₂.fenced r).trans (h₁.fenced r)
  caps     := h₁.caps.trans h₂.caps

theorem avoided (h : Serves s s') : s'.retryAvoidedAgents runId = s.retryAvoidedAgents runId := by
  simp only [retryAvoidedAgents, h.evidence]

end Serves

theorem sync_caps {c : Core} {r : Uuid} {st : RunState} :
    Table.Same (fun b => (b.id, b.maxActiveRuns)) c.batches (c.sync r st).batches := by
  unfold Core.sync
  split
  case h_1 => exact .refl
  case h_2 => exact .of_update rfl fun _ _ _ => rfl

theorem createAttempt_none (h : s.createAttempt runId agentId lease id token now = .ok (none, s')) :
    ∀ run, s.runs.get? runId = some run → run.state ≠ .queued := by
  intro run hr hs
  simp only [createAttempt, hr, hs, ne_eq, not_true_eq_false, if_false] at h
  split at h <;> cases h

-- Attempts that are not finished fence nothing.
def settledAttempt (a : Attempt) : Option Attempt :=
  if a.state = .finished then some a else none

theorem isFenced_of_attempts (he : s'.healthEvidence = s.healthEvidence)
    (ha : Table.Extends settledAttempt (· = none) s.attempts s'.attempts) (r : Uuid) :
    s'.isFenced r = s.isFenced r := by
  have hf (s : Store) : s.isFenced r = (s.attempts.rows.filterMap settledAttempt).any fun a =>
      a.runId = r && s.isUnclassified a := by
    rw [isFenced, List.any_filterMap]
    refine congrArg _ <| funext fun a => ?_
    by_cases hs : a.state = .finished <;> simp [settledAttempt, isUnclassified, hs]
  have hu : s'.isUnclassified = s.isUnclassified := by
    funext a
    simp only [isUnclassified, he]
  have hx : s'.attempts.rows.filterMap settledAttempt = s.attempts.rows.filterMap settledAttempt :=
    ha.filterMap_eq (d := id) fun _ h => h
  rw [hf, hf, hu, hx]

-- What an offer does to the core.
theorem createAttempt_some_core
    (h : s.createAttempt runId agentId lease id token now = .ok (some a, s')) :
    ∃ run attempts, s.runs.get? runId = some run ∧ run.state = .queued ∧
      a = s.newAttempt runId agentId lease id token now ∧ s.attempts.insert a = some attempts ∧
      s'.core = (Core.setRun { s.core with attempts } runId (· = .queued)
        ({ · with state := .running })).sync runId .running := by
  simp only [createAttempt] at h
  repeat' split at h
  all_goals cases h
  case _ run hr hq _ attempts hi =>
    refine ⟨run, attempts, hr, not_not.mp hq, rfl, hi, ?_⟩
    rw [core_appendAudit, core_syncBatchRunState]
    rfl

theorem createAttempt_some (h : s.createAttempt runId agentId lease id token now = .ok (some a, s')) :
    (∃ run, s.runs.get? runId = some run ∧ run.state = .queued) ∧
    s'.attempts.get? a.id = some a ∧ a.state = .offered ∧ a.runId = runId ∧ s.Serves s' ∧
    s'.runs.rows = s.runs.rows.map fun r =>
      if r.id = runId && r.state = .queued then { r with state := .running } else r := by
  have he : s'.healthEvidence = s.healthEvidence := by
    have hw := (s.exec_frame (.createAttempt runId agentId lease id token now)).healthEvidence (by simp [Op.writes])
    rwa [exec, h] at hw
  obtain ⟨run, attempts, hr, hq, hn, hi, hc⟩ := createAttempt_some_core h
  have ha : s'.attempts = attempts := (congrArg Core.attempts hc).trans Core.sync_attempts
  refine ⟨⟨run, hr, hq⟩, ?_, by simp [hn, newAttempt], by simp [hn, newAttempt], ⟨he, ?_, ?_⟩, ?_⟩
  case refine_1 =>
    rw [ha, Table.get?_of_insert hi]
    exact if_pos rfl
  case refine_2 =>
    refine isFenced_of_attempts he ?_
    rw [ha]
    exact .of_insert hi <| by simp [settledAttempt, hn, newAttempt]
  case refine_3 =>
    have hb : s'.batches = _ := congrArg Core.batches hc
    rw [hb]
    exact sync_caps
  case refine_4 =>
    have hx : s'.runs = _ := congrArg Core.runs hc
    rw [hx, Core.sync_runs]
    rfl

theorem releaseOffer_offered (ha : s.attempts.get? id = some a) (hs : a.state = .offered) :
    ∃ s', s.releaseOffer id = .ok ((), s') ∧ s.Serves s' ∧
      s'.runs.rows = s.runs.rows.map fun r =>
        if r.id = a.runId && r.state = .running then { r with state := .queued } else r := by
  let attempts := s.attempts.update (·.id = id) fun a => { a with state := .offerFailed }
  let s' : Store := { s with attempts }.requeueRun a.runId fun r => { r with state := .queued }
  have hx : s.releaseOffer id = .ok ((), s') := by
    simp [releaseOffer, ha, hs, Transaction.commit, s', attempts]
  have hc : s'.core = ((s.core.setAttempt id ({ · with state := .offerFailed })).setRun a.runId
      (· = .running) ({ · with state := .queued })).sync a.runId .queued := by
    simp only [s', requeueRun]
    rw [core_syncBatchRunState]
    rfl
  have he : s'.healthEvidence = s.healthEvidence := by
    have hw := (s.exec_frame (.releaseOffer id)).healthEvidence (by simp [Op.writes])
    rwa [exec, hx] at hw
  refine ⟨s', hx, ⟨he, isFenced_of_attempts he ?_, ?_⟩, ?_⟩
  case refine_1 =>
    have hx : s'.attempts = _ := congrArg Core.attempts hc
    rw [hx, Core.sync_attempts]
    refine .of_same <| .of_update rfl fun b hb hp => ?_
    obtain rfl : b = a := Table.key_injOn hb (Table.mem_of_get? ha) <|
      (of_decide_eq_true hp).trans (Table.key_of_get? ha).symm
    simp [settledAttempt, hs]
  case refine_2 =>
    have hb : s'.batches = _ := congrArg Core.batches hc
    rw [hb]
    exact sync_caps
  case refine_3 =>
    have hx : s'.runs = _ := congrArg Core.runs hc
    rw [hx, Core.sync_runs]
    rfl

end Store

namespace AgentSession

variable {req : Requirements} {excluded : List String} {n m : Nat} {t t₁ t₂ : Table AgentSession}
variable {f g : String → Nat}

-- The session with `n` more assignments, whenever these were made.
def fill (n : Nat) (session : AgentSession) : AgentSession :=
  { session with running := session.running + n, lastAssigned := 0 }

theorem fill_fill (session : AgentSession) : (session.fill n).fill m = session.fill (n + m) := by
  simp [fill, Nat.add_assoc]

theorem isEligible_fill (session : AgentSession) : (session.fill n).isEligible req excluded =
    (session.suits req excluded && session.running + n < session.limit) :=
  rfl

-- The sessions of `t` with `f` more assignments each.
def Fills (f : String → Nat) (t t₁ : Table AgentSession) : Prop :=
  ∀ k, (t₁.get? k).map (fill 0) = (t.get? k).map (fill (f k))

namespace Fills

theorem refl : Fills (fun _ => 0) t t :=
  fun _ => rfl

theorem map_fill (h : Fills f t t₁) (k : String) (n : Nat) :
    (t₁.get? k).map (fill n) = (t.get? k).map (fill (f k + n)) := by
  have hx := congrArg (Option.map (fill n)) (h k)
  simpa [Option.map_map, Function.comp_def, fill_fill] using hx

theorem trans (h₁ : Fills f t t₁) (h₂ : Fills g t₁ t₂) : Fills (fun k => f k + g k) t t₂ :=
  fun k => (h₂ k).trans (h₁.map_fill k (g k))

-- The sessions that can still take a run, in terms of the sessions before.
theorem exists_isEligible_iff (h : Fills f t t₁) : (∃ s ∈ t₁, s.isEligible req excluded) ↔
    ∃ s ∈ t, s.suits req excluded ∧ s.running + f s.agentId < s.limit := by
  have iff k : (∃ s, t₁.get? k = some s ∧ s.isEligible req excluded) ↔
      ∃ s, t.get? k = some s ∧ s.suits req excluded ∧ s.running + f k < s.limit := by
    have hx := congrArg (Option.any (·.isEligible req excluded)) (h k)
    rw [Option.any_map, Option.any_map, Bool.eq_iff_iff, Option.any_eq_true, Option.any_eq_true] at hx
    simp only [isEligible_fill] at hx
    simpa [isEligible] using hx
  constructor
  case mp =>
    rintro ⟨s, hm, he⟩
    obtain ⟨s₀, hg, hx⟩ := (iff s.agentId).mp ⟨s, Table.get?_of_mem hm, he⟩
    obtain ⟨hm, hk⟩ := Table.get?_eq_some.mp hg
    have hk : s₀.agentId = s.agentId := hk
    exact ⟨s₀, hm, hk ▸ hx⟩
  case mpr =>
    rintro ⟨s, hm, hx⟩
    obtain ⟨s₁, hg, he⟩ := (iff s.agentId).mpr ⟨s, Table.get?_of_mem hm, hx⟩
    exact ⟨s₁, Table.mem_of_get? hg, he⟩

-- A slot that is taken.
theorem reserve {a : String} {now : Time} : Fills (fun k => if k = a then 1 else 0) t
    (t.update (·.agentId = a) fun s => { s with running := s.running + 1, lastAssigned := now }) := by
  intro k
  rw [Table.get?_update, Option.map_map]
  refine Option.map_congr fun s hs => ?_
  have hk : s.agentId = k := Table.key_of_get? hs
  by_cases ha : k = a <;> simp [fill, hk, ha]

-- A slot that was taken and is given back.
theorem release {a : String} (h : Fills (fun k => if k = a then 1 else 0) t t₁) : Fills (fun _ => 0) t
    (t₁.update (·.agentId = a) fun s => { s with running := s.running - 1 }) := by
  intro k
  rw [Table.get?_update, Option.map_map]
  by_cases ha : k = a
  case pos =>
    have hx := congrArg (Option.map fun s => { s with running := s.running - 1 }) (h k)
    simp only [ha, if_true, Option.map_map] at hx ⊢
    refine .trans (Option.map_congr fun s hs => ?_) hx
    have hk : s.agentId = a := Table.key_of_get? hs
    simp [fill, hk]
  case neg =>
    have hx := h k
    simp only [ha, if_false] at hx
    refine .trans (Option.map_congr fun s hs => ?_) hx
    have hk : s.agentId = k := Table.key_of_get? hs
    simp [hk, ha]

end Fills

end AgentSession

namespace Run

variable {ids ids' : List Uuid} {r : Run}

-- The run after the queued runs among `ids` were offered.
def offerAll (ids : List Uuid) (r : Run) : Run :=
  if r.id ∈ ids && r.state = .queued then { r with state := .running } else r

@[simp]
theorem map_offerAll_nil {rows : List Run} : rows.map (offerAll []) = rows := by
  simp +unfoldPartialApp [offerAll]

theorem offerAll_of_mem (hm : r.id ∈ ids) (hq : r.state = .queued) :
    r.offerAll ids = { r with state := .running } := by
  simp [offerAll, hm, hq]

theorem offerAll_of_notMem (hm : r.id ∉ ids) : r.offerAll ids = r := by
  simp [offerAll, hm]

theorem offerAll_of_state (hq : r.state ≠ .queued) : r.offerAll ids = r := by
  simp [offerAll, hq]

theorem offerAll_append : r.offerAll (ids ++ ids') = (r.offerAll ids).offerAll ids' := by
  by_cases hq : r.state = .queued
  case neg => rw [offerAll_of_state hq, offerAll_of_state hq, offerAll_of_state hq]
  case pos =>
    by_cases hm : r.id ∈ ids
    case pos =>
      rw [offerAll_of_mem hm hq, offerAll_of_mem (List.mem_append_left _ hm) hq]
      exact (offerAll_of_state <| by simp).symm
    case neg => simp [offerAll, hm]

end Run

def Decision.isOffered : Decision → Bool
  | offered _ => true
  | _         => false

-- The runs that a pass offered, and how many of them to a node.
def offeredRuns (ds : List (Run × Decision)) : List Uuid :=
  (ds.filter fun p => p.2.isOffered).map (·.1.id)

theorem offeredRuns_append {ds ds₁ : List (Run × Decision)} :
    offeredRuns (ds ++ ds₁) = offeredRuns ds ++ offeredRuns ds₁ := by
  simp [offeredRuns]

def offersTo (ds : List (Run × Decision)) (agentId : String) : Nat :=
  ds.countP (·.2 = .offered agentId)

theorem offersTo_offered {run : Run} {agentId : String} :
    offersTo [(run, .offered agentId)] = fun k => if k = agentId then 1 else 0 := by
  funext k
  simp [offersTo, eq_comm]

theorem offersTo_append {ds ds₁ : List (Run × Decision)} :
    offersTo (ds ++ ds₁) = fun k => offersTo ds k + offersTo ds₁ k :=
  funext fun _ => List.countP_append

namespace AppState

variable {L : Type} [LinearOrder L] {load : Nat → Nat → L} {requirements : Uuid → Requirements}
variable {σ σ₁ σ' : AppState} {req : Requirements} {excluded : List String} {now : Time}

theorem reserveAgentAvoiding_eq_none : σ.reserveAgentAvoiding load req excluded now = none ↔
    ¬∃ s ∈ σ.sessions, s.isEligible req excluded := by
  simp [reserveAgentAvoiding, selectAgent, Ranking.least_eq_none, Table.select, Table.mem_rows]

theorem reserveAgentAvoiding_eq_some {session : AgentSession}
    (h : σ.reserveAgentAvoiding load req excluded now = some (session, σ₁)) :
    σ₁.store = σ.store ∧
      AgentSession.Fills (fun k => if k = session.agentId then 1 else 0) σ.sessions σ₁.sessions := by
  simp only [reserveAgentAvoiding, Option.map_eq_some_iff] at h
  obtain ⟨_, -, ⟨⟩⟩ := h
  exact ⟨rfl, .reserve⟩

theorem reserveForRun_eq_none {runId : Uuid} (h : σ.reserveForRun load requirements runId now = none) :
    σ.reserveAgentAvoiding load (requirements runId) (σ.store.retryAvoidedAgents runId) now = none := by
  simp only [reserveForRun] at h
  split at h
  case h_1 => contradiction
  case h_2 hn => exact hn

theorem reserveForRun_eq_some {runId : Uuid} {session : AgentSession}
    (h : σ.reserveForRun load requirements runId now = some (session, σ₁)) :
    σ₁.store = σ.store ∧
      AgentSession.Fills (fun k => if k = session.agentId then 1 else 0) σ.sessions σ₁.sessions := by
  simp only [reserveForRun] at h
  repeat' split at h
  case _ hr => exact reserveAgentAvoiding_eq_some <| hr.trans h
  case _ => exact reserveAgentAvoiding_eq_some h
  case _ => contradiction

-- What a pass with the decisions `ds` did.
structure Served (requirements : Uuid → Requirements) (σ : AppState) (ds : List (Run × Decision))
    (σ' : AppState) : Prop where
  serves   : σ.store.Serves σ'.store
  runs     : σ'.store.runs.rows = σ.store.runs.rows.map (Run.offerAll (offeredRuns ds))
  sessions : AgentSession.Fills (offersTo ds) σ.sessions σ'.sessions
  idle     : ∀ run, (run, .noEligibleAgent) ∈ ds → ¬∃ s ∈ σ'.sessions,
    s.isEligible (requirements run.id) (σ.store.retryAvoidedAgents run.id)
  kept     : ∀ run, (run, .reservationLost) ∉ ds

namespace Served

variable {ds ds₁ : List (Run × Decision)} {run : Run} {leaseSeconds : Nat} {fresh : Fresh}

theorem nil : Served requirements σ [] σ where
  serves   := .refl
  runs     := by simp [offeredRuns]
  sessions := .refl
  idle     := by simp
  kept     := by simp

theorem append (h₁ : Served requirements σ ds σ₁) (h₂ : Served requirements σ₁ ds₁ σ') :
    Served requirements σ (ds ++ ds₁) σ' where
  serves   := h₁.serves.trans h₂.serves
  runs     := by
    rw [h₂.runs, h₁.runs, List.map_map, offeredRuns_append]
    exact List.map_congr_left fun r _ => Run.offerAll_append.symm
  sessions := by
    rw [offersTo_append]
    exact h₁.sessions.trans h₂.sessions
  idle     := by
    intro run hm
    rcases List.mem_append.mp hm with hm | hm
    case inl =>
      -- In the rest of the pass the sessions are only given more to do.
      rw [h₂.sessions.exists_isEligible_iff]
      rintro ⟨s, hs, hx, hl⟩
      refine h₁.idle run hm ⟨s, hs, ?_⟩
      simp only [AgentSession.isEligible, hx, Bool.true_and, decide_eq_true_eq]
      omega
    case inr =>
      rw [← h₁.serves.avoided]
      exact h₂.idle run hm
  kept     := by
    intro run hm
    exact (List.mem_append.mp hm).elim (h₁.kept run) (h₂.kept run)

-- A run that is still queued does not lose its reservation.
theorem dispatchRun {attemptId : Uuid} {leaseToken : String} {d : Decision} (hr : run ∈ σ.store.runs)
    (hq : run.state = .queued)
    (h : σ.dispatchRun load requirements run leaseSeconds attemptId leaseToken now = .ok (d, σ')) :
    Served requirements σ [(run, d)] σ' := by
  have hg : σ.store.runs.get? run.id = some run := Table.get?_of_mem hr
  simp only [AppState.dispatchRun] at h
  split at h
  case h_1 => contradiction
  split at h
  case h_1 hn =>
    cases h
    refine ⟨.refl, by simp [offeredRuns, Decision.isOffered], .refl, fun run' hm => ?_, by simp⟩
    obtain ⟨rfl, -⟩ := Prod.mk.inj <| List.mem_singleton.mp hm
    exact reserveAgentAvoiding_eq_none.mp <| reserveForRun_eq_none hn
  case h_2 session σ₁ hs =>
    have ⟨he, hf⟩ := reserveForRun_eq_some hs
    rw [he] at h
    split at h
    case h_1 => contradiction
    case h_2 hc => exact absurd hq <| Store.createAttempt_none hc run hg
    case h_3 a s₁ hc =>
      have ⟨_, ha, ho, hi, hv, hx⟩ := Store.createAttempt_some hc
      split at h
      case isTrue =>
        cases h
        refine ⟨hv, ?_, ?_, by simp, by simp⟩
        · rw [hx]
          refine List.map_congr_left fun r _ => ?_
          simp [Run.offerAll, offeredRuns, Decision.isOffered]
        · exact offersTo_offered ▸ hf
      case isFalse =>
        have ⟨s₂, hr, hv₂, hx₂⟩ := Store.releaseOffer_offered ha ho
        rw [hr] at h
        cases h
        refine ⟨hv.trans hv₂, ?_, hf.release, by simp, by simp⟩
        -- Only the run itself was offered, and it is queued again.
        refine .trans (hx₂.trans <| by rw [hx, List.map_map]) <| List.map_congr_left fun r hm => ?_
        by_cases hk : r.id = run.id
        case neg => simp [hk, hi, Run.offerAll, offeredRuns, Decision.isOffered]
        case pos =>
          obtain rfl : r = run := Table.key_injOn hm ‹run ∈ _› hk
          simp only [Function.comp_apply, hq, hi, decide_true, Bool.and_true, if_true, offeredRuns,
            Decision.isOffered, List.filter_cons, List.filter_nil]
          exact (hq ▸ rfl : { r with state := .queued } = r).trans (Run.offerAll_of_notMem <| by simp).symm

-- The candidates of a pass are different runs, so that each is still queued when its turn comes.
theorem dispatchAll {runs : List Run} (nd : (runs.map (·.id)).Nodup)
    (hr : ∀ run ∈ runs, run ∈ σ.store.runs ∧ run.state = .queued)
    (h : dispatchAll load requirements leaseSeconds fresh now runs σ = .ok (ds, σ')) :
    Served requirements σ ds σ' ∧ ds.map (·.1) = runs := by
  induction runs generalizing σ ds
  case nil =>
    cases h
    exact ⟨nil, rfl⟩
  case cons run runs hi =>
    have ⟨hn, nd⟩ := List.nodup_cons.mp nd
    have ⟨⟨hm, hq⟩, hr⟩ := List.forall_mem_cons.mp hr
    simp only [AppState.dispatchAll] at h
    split at h
    case h_1 => contradiction
    case h_2 d σ₁ hd =>
      have h₁ := dispatchRun hm hq hd
      split at h
      case h_1 => contradiction
      case h_2 ds₁ σ₂ ht =>
        cases h
        have ⟨h₂, he⟩ := hi nd ?_ ht
        case refine_1 =>
          intro r hm
          have ⟨hm', hq⟩ := hr r hm
          have hx : r.offerAll (offeredRuns [(run, d)]) = r := by
            refine Run.offerAll_of_notMem fun hx => hn ?_
            have hk : r.id = run.id := by
              cases hd : d.isOffered <;> simp_all [offeredRuns]
            exact List.mem_map.mpr ⟨r, hm, hk⟩
          exact ⟨Table.mem_rows.mp <| h₁.runs ▸ List.mem_map.mpr ⟨r, hm', hx⟩, hq⟩
        exact ⟨h₁.append h₂, congrArg (run :: ·) he⟩

theorem mem_eligibleRuns (h : Served requirements σ ds σ') :
    run ∈ σ'.store.eligibleRuns now ↔ run ∈ σ.store.eligibleRuns now ∧ run.id ∉ offeredRuns ds := by
  simp only [Store.eligibleRuns, Table.mem_select, Store.isEligible, h.serves.fenced, ← Table.mem_rows, h.runs,
    List.mem_map, Bool.and_eq_true, decide_eq_true_eq]
  constructor
  case mp =>
    rintro ⟨⟨r, hm, rfl⟩, ⟨hq, hb⟩, hf⟩
    by_cases hs : r.state = .queued ∧ r.id ∈ offeredRuns ds
    case pos => simp [Run.offerAll_of_mem hs.right hs.left] at hq
    case neg =>
      have hx : r.offerAll (offeredRuns ds) = r := by
        rcases not_and_or.mp hs with hs | hs
        case inl => exact Run.offerAll_of_state hs
        case inr => exact Run.offerAll_of_notMem hs
      rw [hx] at hq hb hf ⊢
      exact ⟨⟨hm, ⟨hq, hb⟩, hf⟩, fun hi => hs ⟨hq, hi⟩⟩
  case mpr =>
    intro ⟨⟨hm, hx⟩, hi⟩
    exact ⟨⟨run, hm, Run.offerAll_of_notMem hi⟩, hx⟩

theorem batchRunning (h : Served requirements σ ds σ') (batchId : Uuid)
    (hq : ∀ r ∈ σ.store.runs, r.id ∈ offeredRuns ds → r.state = .queued) :
    σ'.store.batchRunning batchId =
      σ.store.batchRunning batchId + (σ.store.childRuns batchId).countP (·.id ∈ offeredRuns ds) := by
  simp only [Store.batchRunning, h.runs, Store.childRuns, Table.select, ← Table.mem_rows] at hq ⊢
  generalize σ.store.runs.rows = rows at hq
  induction rows
  case nil => rfl
  case cons r rows hi =>
    obtain ⟨hr, hq⟩ := List.forall_mem_cons.mp hq
    rw [List.map_cons, List.countP_cons, List.countP_cons, hi hq, List.filter_cons]
    by_cases hb : r.batchId = some batchId <;> by_cases hm : r.id ∈ offeredRuns ds
    · simp [hb, hm, Run.offerAll_of_mem hm (hr hm), hr hm]
      omega
    · simp [hb, hm, Run.offerAll_of_notMem hm]
      omega
    · simp [hb, Run.offerAll_of_mem hm (hr hm)]
    · simp [hb, Run.offerAll_of_notMem hm]

end Served

section Conserving

variable (load requirements)

-- No run that could be placed is left over.
def WorkConserving (σ : AppState) (now : Time) : Prop :=
  ∀ run ∈ σ.store.eligibleRuns now,
    (∀ b ∈ σ.store.batches, run.batchId = some b.id → σ.store.batchRunning b.id < b.maxActiveRuns) →
      σ.reserveAgentAvoiding load (requirements run.id) (σ.store.retryAvoidedAgents run.id) now = none

-- The pass made all the offers that the cap of the run's batch allows.
def BatchFilled (σ : AppState) (ds : List (Run × Decision)) (run : Run) : Prop :=
  ∃ b ∈ σ.store.batches, run.batchId = some b.id ∧
    b.maxActiveRuns ≤ σ.store.batchRunning b.id + (σ.store.childRuns b.id).countP (·.id ∈ offeredRuns ds)

-- The pass took all the slots of the sessions that the run could be placed on.
def SessionsFilled (σ : AppState) (ds : List (Run × Decision)) (run : Run) : Prop :=
  ∀ session ∈ σ.sessions, session.suits (requirements run.id) (σ.store.retryAvoidedAgents run.id) →
    session.limit ≤ session.running + offersTo ds session.agentId

instance {σ : AppState} : Decidable (σ.WorkConserving load requirements now) :=
  inferInstanceAs (Decidable (∀ run ∈ σ.store.eligibleRuns now,
    (∀ b ∈ σ.store.batches, run.batchId = some b.id → σ.store.batchRunning b.id < b.maxActiveRuns) →
      σ.reserveAgentAvoiding load (requirements run.id) (σ.store.retryAvoidedAgents run.id) now = none))

instance {σ : AppState} {ds : List (Run × Decision)} {run : Run} : Decidable (σ.BatchFilled ds run) :=
  inferInstanceAs (Decidable (∃ b ∈ σ.store.batches, run.batchId = some b.id ∧
    b.maxActiveRuns ≤ σ.store.batchRunning b.id + (σ.store.childRuns b.id).countP (·.id ∈ offeredRuns ds)))

end Conserving

variable {ds : List (Run × Decision)} {run : Run} {d : Decision}

theorem Served.sessionsFilled_iff (h : Served requirements σ ds σ') : σ.SessionsFilled requirements ds run ↔
    ¬∃ s ∈ σ'.sessions, s.isEligible (requirements run.id) (σ.store.retryAvoidedAgents run.id) := by
  simp only [h.sessions.exists_isEligible_iff, SessionsFilled, not_exists, not_and, not_lt]

theorem Served.batchFilled_iff (h : Served requirements σ ds σ')
    (hq : ∀ r ∈ σ.store.runs, r.id ∈ offeredRuns ds → r.state = .queued) : σ.BatchFilled ds run ↔
      ¬∀ b ∈ σ'.store.batches, run.batchId = some b.id → σ'.store.batchRunning b.id < b.maxActiveRuns := by
  simp only [BatchFilled, h.batchRunning _ hq, not_forall, not_lt, exists_prop]
  constructor
  case mp =>
    intro ⟨b, hb, hx⟩
    have ⟨b', hb', he⟩ := h.serves.caps.exists_right hb
    have ⟨hi, hm⟩ := Prod.mk.inj he
    exact ⟨b', hb', by rwa [hi, hm]⟩
  case mpr =>
    intro ⟨b', hb', hx⟩
    have ⟨b, hb, he⟩ := h.serves.caps.exists_left hb'
    have ⟨hi, hm⟩ := Prod.mk.inj he
    exact ⟨b, hb, by rwa [hi, hm]⟩

theorem mem_offeredRuns_iff (nd : (ds.map (·.1.id)).Nodup) (hm : (run, d) ∈ ds) :
    run.id ∈ offeredRuns ds ↔ d.isOffered := by
  constructor
  case mp =>
    intro ho
    have ⟨p, hp, hk⟩ := List.mem_map.mp ho
    have ⟨hp, ho⟩ := List.mem_filter.mp hp
    obtain rfl : p = (run, d) := List.inj_on_of_nodup_map nd hp hm hk
    exact ho
  case mpr =>
    intro ho
    exact List.mem_map.mpr ⟨(run, d), List.mem_filter.mpr ⟨hm, ho⟩, rfl⟩

end AppState

namespace Sample

def session : AgentSession where
  agentId                 := "agent"
  connectionId            := 1
  isOpen                  := true
  enabled                 := true
  labels                  := []
  capacity                := 1
  appliedSettingsRevision := 1
  running                 := 0
  health                  := .healthy
  lastAssigned            := 0
  environmentBindings     := []
  secretFileBindings      := []

-- Two of the runs of a batch wait, of which one may run at a time.
def connected : AppState where
  store    := database.run .empty (capped.take 6)
  sessions := ⟨[session], by decide⟩

-- The run asks for a label.
def labelled (runId r : Uuid) : Requirements where
  labels   := if r = runId then [("zone", "north")] else []
  bindings := []

def fresh : AppState.Fresh where
  attemptId  := (· + 100)
  leaseToken := fun _ => "token"

end Sample

namespace AppState

open Sample

-- No node has the label that the oldest run of the batch asks for. As it is the only candidate, the other
-- runs of the batch are not offered to the node that is free.

end AppState

end Scheduler
