import TaskScheduler.Coordinator.Rejections
import TaskScheduler.Dispatch.Pass

namespace Scheduler

theorem AttemptState.isActive_of_isLeased {st : AttemptState} (h : st.isLeased) : st.isActive := by
  cases st <;> simp_all [isLeased, AttemptState.isActive]

namespace Life

variable {l : Life} {id : Uuid} {e : Event}

-- The run waits for an attempt whose lease was taken away.
structure Stranded (l : Life) (id : Uuid) : Prop where
  running  : l.state = .running
  expiring : l.Has id (·.state = .expiring)

-- What the background passes do to a run, apart from giving up the attempt `id`.
def Event.isBackground (id : Uuid) : Event → Bool
  | offer _ | deliver .. | release _ | expire _ | poison => true
  | finishExpired id' _ => id' ≠ id
  | reject _ | accept _ | finish .. | cancel | retry => false

theorem Stranded.eq_of_active (h : l.Stranded id) (s : l.Sound) {a : Slot} (ha : a ∈ l.slots)
    (hs : a.state.isActive) : a.id = id ∧ a.state = .expiring := by
  have ⟨b, hb, hi, he⟩ := h.expiring
  obtain rfl : a = b := s.active_unique ha hb hs (he ▸ rfl)
  exact ⟨hi, he⟩

theorem Stranded.exec (h : l.Stranded id) (s : l.Sound) (he : l.Enabled e)
    (hb : e.isBackground id) : (l.exec e).Stranded id := by
  cases e <;> simp only [Event.isBackground, Bool.false_eq_true] at hb
  case offer => cases h.running.symm.trans he.left
  case poison => cases h.running.symm.trans he
  case deliver id' d =>
    obtain ⟨a, ha, hi, hs⟩ := h.expiring
    refine ⟨h.running, _, List.mem_map.mpr ⟨a, ha, rfl⟩, ?_⟩
    split <;> exact ⟨hi, hs⟩
  case release =>
    obtain ⟨a, ha, _, hs, _⟩ := he
    cases hs.symm.trans (h.eq_of_active s ha (hs ▸ rfl)).right
  case expire =>
    obtain ⟨a, ha, _, hs⟩ := he
    have hl : a.state.isActive := by cases hs <;> simp [*, AttemptState.isActive]
    have hx := (h.eq_of_active s ha hl).right
    cases hs
    case inl hs => cases hs.symm.trans hx
    case inr hs => cases hs.symm.trans hx
  case finishExpired id' ok =>
    obtain ⟨a, ha, hi, hs⟩ := he
    exact absurd ((hi.symm.trans (h.eq_of_active s ha (hs ▸ rfl)).left)) (of_decide_eq_true hb)

end Life

-- The clock readings and the other inputs of a background pass. The sessions are those that the
-- coordinator has at the time.
inductive BackgroundPass
  | dispatch (sessions : Table AgentSession) (leaseSeconds : Nat) (fresh : AppState.Fresh)
      (now : Time)
  | expireLeases (now : Time) (draws : Uuid → Draws)
  | reconcileUnclassified (draws : Uuid → Draws)

-- The pass takes place between two points in time.
def BackgroundPass.During (t₁ t₂ : Time) : BackgroundPass → Prop
  | dispatch _ _ _ now          => t₁ ≤ now ∧ now ≤ t₂
  | expireLeases now draws      => t₁ ≤ now ∧ ∀ id, now ≤ (draws id).now ∧ (draws id).now ≤ t₂
  | reconcileUnclassified draws => ∀ id, t₁ ≤ (draws id).now ∧ (draws id).now ≤ t₂

-- Passes one after the other, from some time on.
inductive Advancing : Time → List BackgroundPass → Prop
  | nil  : Advancing t []
  | cons : p.During t t' → Advancing t' ps → Advancing t (p :: ps)

namespace AppState

variable {L : Type} [LinearOrder L] (load : Nat → Nat → L) (requirements : Uuid → Requirements)

-- The store after the loop of a dispatch pass, which ends with the first error.
def dispatchRows (leaseSeconds : Nat) (fresh : Fresh) (now : Time) : AppState → List Run → Store
  | σ, []         => σ.store
  | σ, run :: tl =>
    match σ.dispatchRun load requirements run leaseSeconds (fresh.attemptId run.id)
      (fresh.leaseToken run.id) now with
    | .error _    => σ.store
    | .ok (_, σ') => dispatchRows leaseSeconds fresh now σ' tl

end AppState

namespace System

variable {σ : System} {r id : Uuid} {act : Action}

structure Stranded (σ : System) (r id : Uuid) : Prop where
  reachable : σ.Reachable
  life      : ∃ l, σ.life r = some l ∧ l.Stranded id

theorem Stranded.exec (h : σ.Stranded r id) (ha : σ.Enabled act)
    (hb : ∀ e, act.Emits r e → e.isBackground id) : (σ.exec act).Stranded r id := by
  have ⟨l, hl, hs⟩ := h.life
  have hc : coordinator.Enabled σ act := ha
  have he := life_exec (r := r) h.reachable.wellFormed ha
  rw [hl] at he
  refine ⟨Machine.Reachable.exec h.reachable hc, ?_⟩
  cases he.of_some
  case inl he => exact ⟨l, he, hs⟩
  case inr he =>
    have ⟨e, hm, he, hx⟩ := he
    exact ⟨_, hx, hs.exec (h.reachable.lawful hl).sound he (hb e hm)⟩

end System

namespace Store

section Passes

variable (s : Store)

-- `WHERE state IN ('offered','accepted') ORDER BY lease_expires_at LIMIT ?`
def leasedAttempts (limit : Nat) : List Attempt :=
  s.attempts.select (·.state.isLeased)
    |> Ranking.first (fun a => toLex (a.leaseExpiresAt, a.id)) (min limit 500)

-- The loop of `claim_expired_attempts`, which returns the rows that it has claimed.
def claimRows (graceSeconds : Nat) (now : Time) :
    Store → List Attempt → Option (List Attempt) × Store
  | s, []          => (some [], s)
  | s, row :: rows =>
    match s.claimExpiredAttempt row.id graceSeconds now with
    | .error _          => (none, s)
    | .ok (claimed, s') =>
      let (rest, s'') := claimRows graceSeconds now s' rows
      (rest.map (claimed.toList ++ ·), s'')

def claimExpiredAttempts (limit graceSeconds : Nat) (now : Time) : Option (List Attempt) × Store :=
  s.claimRows graceSeconds now (s.leasedAttempts limit)

-- The loop of `expire_leases`. A result that cannot be classified is left to the reconciliation.
def expireRows (f : Fingerprints) (draws : Uuid → Draws) : Store → List Attempt → Store
  | s, []              => s
  | s, attempt :: rows =>
    let d := draws attempt.id
    let result := leaseExpiredResult d.now
    match s.finishExpiredAttempt attempt.id attempt.leaseToken result (some result) d.random
      d.now with
    | .error _         => s
    | .ok (none, s')   => expireRows f draws s' rows
    | .ok (some _, s') =>
      let s'' := (s.attemptHealthContext attempt.id).elim s' fun context =>
        (s'.recordAttemptResult f context result d).persisted s'
      expireRows f draws s'' rows

def expireLeases (f : Fingerprints) (heartbeatSeconds : Nat) (now : Time) (draws : Uuid → Draws) :
    Store :=
  match s.claimExpiredAttempts 500 heartbeatSeconds now with
  | (none, s')         => s'
  | (some claimed, s') => s'.expireRows f draws claimed

variable {L : Type} [LinearOrder L] (load : Nat → Nat → L) (requirements : Uuid → Requirements)
variable (f : Fingerprints) (heartbeatSeconds : Nat)

def pass : BackgroundPass → Store
  | .dispatch sessions leaseSeconds fresh now =>
    AppState.dispatchRows load requirements leaseSeconds fresh now ⟨s, sessions⟩
      (s.queuedRuns now 100)
  | .expireLeases now draws       => s.expireLeases f heartbeatSeconds now draws
  | .reconcileUnclassified draws  => (s.reconcileUnclassified f draws).2

def passes (ps : List BackgroundPass) : Store :=
  ps.foldl (fun s p => s.pass load requirements f heartbeatSeconds p) s

end Passes

variable {s s' : Store} {r id : Uuid} {op : Op} {f : Fingerprints} {a : Attempt} {limit grace : Nat}
variable {now : Time} {rows claimed : List Attempt}

theorem mem_of_mem_leasedAttempts (h : a ∈ s.leasedAttempts limit) :
    a ∈ s.attempts ∧ a.state.isLeased :=
  Table.mem_select.mp <| Ranking.mem_of_mem_first h

theorem claimExpiredAttempt_id (h : s.claimExpiredAttempt id grace now = .ok (some a, s')) :
    a.id = id := by
  simp only [claimExpiredAttempt] at h
  repeat' split at h
  all_goals cases h
  case _ ha _ => exact Table.key_of_get? ha

theorem mem_of_mem_claimRows (h : s.claimRows grace now rows = (some claimed, s'))
    (ha : a ∈ claimed) : ∃ row ∈ rows, row.id = a.id := by
  induction rows generalizing s claimed
  case nil =>
    cases h
    contradiction
  case cons row rows hi =>
    simp only [claimRows] at h
    split at h
    case h_1 => exact nomatch h
    case h_2 c s₁ hc =>
      have ⟨h₁, h₂⟩ := Prod.mk.inj h
      have ⟨rest, hr, he⟩ := Option.map_eq_some_iff.mp h₁
      cases List.mem_append.mp (he ▸ ha)
      case inl ha =>
        rw [Option.mem_toList] at ha
        exact ⟨row, .head _, (claimExpiredAttempt_id <| ha ▸ hc).symm⟩
      case inr ha =>
        have ⟨row, hm, hi⟩ := hi (Prod.ext hr h₂) ha
        exact ⟨row, .tail _ hm, hi⟩

theorem recordAttemptResult_cases (s : Store) (f : Fingerprints) (context : AttemptHealthContext)
    (result : ExecutionResult) (d : Draws) :
    (s.recordAttemptResult f context result d).persisted s = s ∨ ∃ e nodes id order now,
      (s.recordAttemptResult f context result d).persisted s =
        s.exec (.recordHealthEvidence e nodes id order now) := by
  rw [recordAttemptResult_persisted]
  cases hj : s.judgement f context result d
  case none => exact .inl rfl
  case some op =>
    obtain ⟨e, nodes, id, order, now, rfl⟩ := judgement_isEvidence hj
    exact .inr ⟨e, nodes, id, order, now, rfl⟩

section Stranded

def Stranded (s : Store) (r id : Uuid) : Prop :=
  ∃ σ : System, σ.Stranded r id ∧ σ.store = s

namespace Stranded

theorem exec (h : s.Stranded r id) (op : Op) (hn : op.needs = none)
    (hb : ∀ e, (Action.store op).Emits r e → e.isBackground id) : (s.exec op).Stranded r id := by
  obtain ⟨σ, hs, rfl⟩ := h
  have ha : σ.Enabled (.store op) := fun x hx => by simp [hn] at hx
  exact ⟨_, hs.exec ha hb, rfl⟩

theorem claimRows (h : s.Stranded r id) :
    (s.claimRows grace now rows).2.Stranded r id := by
  induction rows generalizing s
  case nil => exact h
  case cons row rows hi =>
    have hx := h.exec (.claimExpiredAttempt row.id grace now) rfl fun e he => by cases he; rfl
    simp only [Store.claimRows]
    simp only [Store.exec] at hx
    split
    case h_1 => exact h
    case h_2 hc => exact hi (by simpa [hc] using hx)

theorem recordAttemptResult (h : s.Stranded r id) (context : AttemptHealthContext)
    (result : ExecutionResult) (d : Draws) :
    ((s.recordAttemptResult f context result d).persisted s).Stranded r id := by
  cases s.recordAttemptResult_cases f context result d
  case inl he =>
    rw [he]
    exact h
  case inr he =>
    have ⟨e, nodes, eid, order, now, he⟩ := he
    rw [he]
    refine h.exec (.recordHealthEvidence e nodes eid order now) rfl fun e he => ?_
    cases he
    rfl

theorem expireRows {draws : Uuid → Draws} (h : s.Stranded r id)
    (hn : ∀ row ∈ rows, row.id ≠ id) : (s.expireRows f draws rows).Stranded r id := by
  induction rows generalizing s
  case nil => exact h
  case cons row rows hi =>
    have hi {s : Store} (h : s.Stranded r id) := hi h fun row hr => hn row (.tail _ hr)
    let d := draws row.id
    let result := leaseExpiredResult d.now
    have hx := h.exec
      (.finishExpiredAttempt row.id row.leaseToken result (some result) d.random d.now) rfl
      fun e he => by
        cases he
        exact decide_eq_true <| hn row (.head _)
    simp only [Store.expireRows]
    simp only [Store.exec] at hx
    split
    case h_1 => exact h
    case h_2 hc => exact hi (by simpa [hc, d, result] using hx)
    case h_3 s' hc =>
      have hs : s'.Stranded r id := by simpa [hc, d, result] using hx
      apply hi
      cases s.attemptHealthContext row.id
      case none => exact hs
      case some context => exact hs.recordAttemptResult context _ _

theorem reconcileRows {draws : Uuid → Draws} {rows : List UnclassifiedAttempt}
    (h : s.Stranded r id) : (s.reconcileRows f draws rows).2.Stranded r id := by
  induction rows generalizing s
  case nil => exact h
  case cons row rows hi =>
    simp only [Store.reconcileRows]
    split
    case h_1 => exact h
    case h_2 result _ =>
      have hx := h.recordAttemptResult (f := f) row.context result (draws row.context.attemptId)
      split
      case h_1 => exact h
      case h_2 hc => exact hi (by simpa [hc] using hx)

-- An offer whose message cannot be sent is released again.
theorem releaseOffer {runId attemptId : Uuid} {agentId token : String} {lease : Nat} {now : Time}
    {a : Attempt} (h : s.Stranded r id)
    (hc : s.createAttempt runId agentId lease attemptId token now = .ok (some a, s')) :
    (s'.exec (.releaseOffer a.id)).Stranded r id := by
  obtain ⟨σ, hs, rfl⟩ := h
  obtain ⟨_, _, _, _, _, hi, _⟩ := createAttempt_some_core hc
  have ha : s'.attempts.get? a.id = some a := (createAttempt_some hc).right.left
  have hd : σ.delivery a.id = .pending := by
    by_contra hd
    have hn : σ.store.attempts.get? a.id = none := Table.get?_key_of_insert hi
    cases hn ▸ hs.reachable.wellFormed.delivery _ hd
  obtain ⟨σ₁, h₁, hd₁, hs₁⟩ : ∃ σ₁ : System,
      σ₁.Stranded r id ∧ σ₁.delivery = σ.delivery ∧ σ₁.store = s' := by
    refine ⟨σ.exec (.store (.createAttempt runId agentId lease attemptId token now)), ?_, rfl, ?_⟩
    case refine_1 => exact hs.exec (fun _ h => by cases h) fun e he => by cases he; rfl
    case refine_2 => simp [System.exec, Store.exec, hc]
  have h₂ : (σ₁.exec (.deliver a.id .failed)).Stranded r id := by
    refine h₁.exec ⟨?_, hd₁ ▸ hd, by rintro ⟨⟩⟩ fun e he => by cases he; rfl
    rw [hs₁, ha]
    rfl
  have he : (σ₁.exec (.deliver a.id .failed)).Enabled (.store (.releaseOffer a.id)) := by
    rintro x ⟨⟩
    exact Function.update_self ..
  exact ⟨_, h₂.exec he fun e he => by cases he; rfl, hs₁ ▸ rfl⟩

variable {L : Type} [LinearOrder L] {load : Nat → Nat → L} {requirements : Uuid → Requirements}

theorem dispatchRun {σ σ' : AppState} {run : Run} {lease : Nat} {attemptId : Uuid} {token : String}
    {now : Time} {d : Decision} (h : σ.store.Stranded r id)
    (hd : σ.dispatchRun load requirements run lease attemptId token now = .ok (d, σ')) :
    σ'.store.Stranded r id := by
  simp only [AppState.dispatchRun] at hd
  split at hd
  case h_1 => contradiction
  split at hd
  case h_1 =>
    cases hd
    exact h
  case h_2 session σ₁ hr =>
    obtain ⟨hs, _⟩ := AppState.reserveForRun_eq_some hr
    rw [← hs] at h
    split at hd
    case h_1 => contradiction
    case h_2 =>
      cases hd
      exact h
    case h_3 attempt s₁ hc =>
      split at hd
      case isTrue =>
        cases hd
        have hx := h.exec (.createAttempt run.id session.agentId lease attemptId token now) rfl
          fun e he => by cases he; rfl
        simpa [Store.exec, hc] using hx
      case isFalse =>
        split at hd
        case h_1 => contradiction
        case h_2 hr =>
          cases hd
          have hx := h.releaseOffer hc
          simpa [Store.exec, hr, AppState.releaseAgentSlot] using hx

theorem dispatchRows {σ : AppState} {runs : List Run} {lease : Nat} {fresh : AppState.Fresh}
    {now : Time} (h : σ.store.Stranded r id) :
    (AppState.dispatchRows load requirements lease fresh now σ runs).Stranded r id := by
  induction runs generalizing σ
  case nil => exact h
  case cons run runs hi =>
    simp only [AppState.dispatchRows]
    split
    case h_1 => exact h
    case h_2 hd => exact hi <| h.dispatchRun hd

theorem of_mem {σ : System} (h : σ.Reachable) {run : Run} {a : Attempt} (hr : run ∈ σ.store.runs)
    (hs : run.state = .running) (ha : a ∈ σ.store.attempts) (hi : a.runId = run.id)
    (he : a.state = .expiring) : σ.store.Stranded run.id a.id := by
  have hm : a.slot σ.delivery ∈ σ.store.core.slots σ.delivery run.id := hi ▸ Core.mem_slots ha
  exact ⟨σ, ⟨h, _, σ.life_of_mem hr, hs, a.slot σ.delivery, hm, rfl, he⟩, rfl⟩

theorem attempt (h : s.Stranded r id) : ∃ a ∈ s.attempts, a.id = id ∧ a.state = .expiring := by
  obtain ⟨σ, hs, rfl⟩ := h
  have ⟨l, hl, hs⟩ := hs.life
  have ⟨run, _, he⟩ := Option.map_eq_some_iff.mp hl
  have ⟨x, hx, hi, he⟩ := he ▸ hs.expiring
  obtain ⟨a, ha, rfl⟩ := List.mem_map.mp hx
  exact ⟨a, (Table.mem_select.mp ha).left, hi, he⟩

theorem ne_of_mem_leased (h : s.Stranded r id)
    (ha : a ∈ s.leasedAttempts limit) : a.id ≠ id := by
  intro hi
  have ⟨b, hb, hi', he⟩ := h.attempt
  have ⟨ha, hl⟩ := mem_of_mem_leasedAttempts ha
  obtain rfl : a = b := Table.key_injOn ha hb <| hi.trans hi'.symm
  simp [he, AttemptState.isLeased] at hl

theorem pass {heartbeat : Nat} {p : BackgroundPass} (h : s.Stranded r id) :
    (s.pass load requirements f heartbeat p).Stranded r id := by
  cases p
  case dispatch sessions lease fresh now => exact dispatchRows (σ := ⟨s, sessions⟩) h
  case reconcileUnclassified draws => exact h.reconcileRows
  case expireLeases now draws =>
    simp only [Store.pass, Store.expireLeases, claimExpiredAttempts]
    have hx : (s.claimRows heartbeat now (s.leasedAttempts 500)).2.Stranded r id := h.claimRows
    split
    case h_1 hc =>
      rw [hc] at hx
      exact hx
    case h_2 claimed s' hc =>
      rw [hc] at hx
      refine hx.expireRows fun a ha => ?_
      have ⟨row, hr, hi⟩ := mem_of_mem_claimRows hc ha
      exact hi ▸ h.ne_of_mem_leased hr

theorem passes {heartbeat : Nat} {ps : List BackgroundPass} (h : s.Stranded r id) :
    (s.passes load requirements f heartbeat ps).Stranded r id := by
  induction ps generalizing s
  case nil => exact h
  case cons p ps hi => exact hi h.pass

theorem running (h : s.Stranded r id) : ∃ run ∈ s.runs, run.id = r ∧ run.state = .running := by
  obtain ⟨σ, hs, rfl⟩ := h
  have ⟨l, hl, hs⟩ := hs.life
  have ⟨run, hr, he⟩ := Option.map_eq_some_iff.mp hl
  exact ⟨run, Table.mem_of_get? hr, Table.key_of_get? hr, (congrArg Life.state he).trans hs.running⟩

end Stranded

end Stranded

section Recovery

-- Stores that the coordinator can get to.
def Reached (s : Store) : Prop :=
  ∃ σ : System, σ.Reachable ∧ σ.store = s

theorem Reached.exec (h : s.Reached) (op : Op) (hn : op.needs = none) : (s.exec op).Reached := by
  obtain ⟨σ, hr, rfl⟩ := h
  have ha : σ.Enabled (.store op) := fun x hx => by simp [hn] at hx
  have hc : coordinator.Enabled σ (.store op) := ha
  exact ⟨_, Machine.Reachable.exec hr hc, rfl⟩

-- An overdue lease is taken away, and no other row changes.
theorem claimExpiredAttempt_overdue (ha : a ∈ s.attempts) (hl : a.state.isLeased)
    (ho : a.leaseExpiresAt + .seconds grace < now) :
    ∃ s', s.claimExpiredAttempt a.id grace now = .ok (some a, s') ∧
      s'.attempts.rows = s.attempts.rows.map fun b =>
        if b.id = a.id then { b with state := .expiring } else b := by
  have hg : s.attempts.get? a.id = some a := Table.get?_of_mem ha
  simp [claimExpiredAttempt, hg, hl, ho, Transaction.commit, Table.update]

-- A pass that starts when no lease is valid any more claims the rows that it has selected.
theorem claimRows_overdue (h : s.Reached) (nd : (rows.map (·.id)).Nodup)
    (hr : ∀ a ∈ rows, a ∈ s.attempts ∧ a.state.isLeased)
    (ho : ∀ a ∈ rows, a.leaseExpiresAt + .seconds grace < now) :
    ∃ s', s.claimRows grace now rows = (some rows, s') ∧ s'.Reached ∧
      (∀ a ∈ rows, { a with state := .expiring } ∈ s'.attempts) ∧
      ∀ b, b.id ∉ rows.map (·.id) → (b ∈ s'.attempts ↔ b ∈ s.attempts) := by
  induction rows generalizing s
  case nil => exact ⟨s, rfl, h, by simp, by simp⟩
  case cons row rows hi =>
    obtain ⟨hn, nd⟩ := List.nodup_cons.mp nd
    obtain ⟨ha, hl⟩ := hr row (.head _)
    obtain ⟨s₁, hc, ht⟩ := claimExpiredAttempt_overdue ha hl (ho row (.head _))
    have h₁ : s₁.Reached := by
      have h₁ := h.exec (.claimExpiredAttempt row.id grace now) rfl
      rwa [Store.exec, hc] at h₁
    have hm (b : Attempt) (hb : b.id ≠ row.id) : b ∈ s₁.attempts ↔ b ∈ s.attempts := by
      rw [← Table.mem_rows, ht]
      refine ⟨fun h => ?_, fun h => List.mem_map.mpr ⟨b, h, if_neg hb⟩⟩
      obtain ⟨c, hc, he⟩ := List.mem_map.mp h
      split at he
      case isTrue hi => exact absurd (he ▸ hi) hb
      case isFalse => exact he ▸ hc
    have hr₁ (a : Attempt) (ha : a ∈ rows) : a ∈ s₁.attempts ∧ a.state.isLeased := by
      obtain ⟨hm', hl⟩ := hr a (.tail _ ha)
      refine ⟨(hm a fun hi => ?_).mpr hm', hl⟩
      exact hn <| List.mem_map.mpr ⟨a, ha, hi⟩
    obtain ⟨s', hc', h', he, hb⟩ := hi h₁ nd hr₁ fun a ha => ho a (.tail _ ha)
    refine ⟨s', by simp [claimRows, hc, hc'], h', ?_, ?_⟩
    case refine_1 =>
      rintro a (_ | ⟨_, ha⟩)
      case head =>
        refine (hb { row with state := .expiring } hn).mpr ?_
        rw [← Table.mem_rows, ht]
        exact List.mem_map.mpr ⟨row, ha, if_pos rfl⟩
      case tail => exact he a ha
    case refine_2 =>
      intro b hn
      obtain ⟨hn₁, hn₂⟩ := List.mem_cons.not.mp hn |> not_or.mp
      exact (hb b hn₂).trans (hm b hn₁)

-- An attempt whose lease was taken away is given up.
theorem finishExpiredAttempt_expiring (h : s.Reached) (ha : a ∈ s.attempts)
    (he : a.state = .expiring) (result : ExecutionResult) (encrypted : Sealed ExecutionResult)
    (random : Nat) (now : Time) : ∃ st s',
      s.finishExpiredAttempt a.id a.leaseToken result encrypted random now = .ok (some st, s') ∧
        s'.Reached ∧ s.Settles a result encrypted s' := by
  obtain ⟨run, hr⟩ : ∃ run, s.runs.get? a.runId = some run := by
    obtain ⟨σ, hr, rfl⟩ := h
    exact Option.isSome_iff_exists.mp <| hr.wellFormed.attempts a ha
  obtain ⟨st, s', hx⟩ : ∃ st s',
      s.finishExpiredAttempt a.id a.leaseToken result encrypted random now = .ok (some st, s') := by
    have hg : s.attempts.get? a.id = some a := Table.get?_of_mem ha
    simp only [finishExpiredAttempt, finishAttemptInner, hg, hr, he]
    by_cases hc : run.state = .cancelled <;> simp [hc, Transaction.commit]
  have hs : s'.Reached := by
    have hs := h.exec (.finishExpiredAttempt a.id a.leaseToken result encrypted random now) rfl
    rwa [Store.exec, hx] at hs
  obtain ⟨b, hb, hs'⟩ := finishExpiredAttempt_settles hx
  obtain rfl : a = b := Option.some.inj <| (Table.get?_of_mem ha).symm.trans hb
  exact ⟨st, s', hx, hs, hs'⟩

theorem Reached.recordAttemptResult (h : s.Reached) (context : AttemptHealthContext)
    (result : ExecutionResult) (d : Draws) :
    let s' := (s.recordAttemptResult f context result d).persisted s
    s'.Reached ∧ s'.attempts = s.attempts := by
  cases s.recordAttemptResult_cases f context result d
  case inl he =>
    rw [he]
    exact ⟨h, rfl⟩
  case inr he =>
    have ⟨e, nodes, id, order, now, he⟩ := he
    rw [he]
    refine ⟨h.exec (.recordHealthEvidence e nodes id order now) rfl, ?_⟩
    exact (s.exec_frame (.recordHealthEvidence e nodes id order now)).attempts (by simp [Op.writes])

-- All claimed rows are given up.
theorem expireRows_expiring (h : s.Reached) (f : Fingerprints) (draws : Uuid → Draws)
    (nd : (rows.map (·.id)).Nodup)
    (hr : ∀ a ∈ rows, { a with state := .expiring } ∈ s.attempts) :
    (s.expireRows f draws rows).Reached ∧ ∀ b ∈ (s.expireRows f draws rows).attempts,
      b.state.isActive → b ∈ s.attempts ∧ b.id ∉ rows.map (·.id) := by
  induction rows generalizing s
  case nil => exact ⟨h, fun _ hb _ => ⟨hb, by simp⟩⟩
  case cons row rows hi =>
    have ⟨hn, nd⟩ := List.nodup_cons.mp nd
    let d := draws row.id
    let result := leaseExpiredResult d.now
    have ⟨st, s₁, hx, h₁, hs⟩ :=
      finishExpiredAttempt_expiring h (hr row (.head _)) rfl result (some result) d.random d.now
    let s₂ := (s.attemptHealthContext row.id).elim s₁ fun context =>
      (s₁.recordAttemptResult f context result d).persisted s₁
    have ⟨h₂, ht⟩ : s₂.Reached ∧ s₂.attempts = s₁.attempts := by
      simp only [s₂]
      cases s.attemptHealthContext row.id
      case none => exact ⟨h₁, rfl⟩
      case some context => exact h₁.recordAttemptResult context result d
    have hr₂ (a : Attempt) (ha : a ∈ rows) : { a with state := .expiring } ∈ s₂.attempts := by
      rw [ht]
      refine hs.mem_of_ne (hr a (.tail _ ha)) fun hi => hn ?_
      exact List.mem_map.mpr ⟨a, ha, hi⟩
    have hx : s.finishExpiredAttempt row.id row.leaseToken result (some result) d.random d.now =
      .ok (some st, s₁) := hx
    have he : s.expireRows f draws (row :: rows) = s₂.expireRows f draws rows := by
      simp only [expireRows, s₂]
      rw [hx]
    rw [he]
    have ⟨h', hb⟩ := hi h₂ nd hr₂
    refine ⟨h', fun b hm hs' => ?_⟩
    have ⟨hm, hn'⟩ := hb b hm hs'
    cases hs.eq_or_shows (ht ▸ hm)
    case inl hm => exact ⟨hm.left, List.mem_cons.not.mpr <| not_or.mpr ⟨hm.right, hn'⟩⟩
    case inr hm =>
      have hc := hm.right.concluded
      cases hb : b.state <;> simp [hb, AttemptState.isConcluded, AttemptState.isActive] at hc hs'

-- The ids of the rows with a lease.
def leased (s : Store) : Finset Uuid :=
  (s.attempts.select (·.state.isLeased)).map (·.id) |>.toFinset

theorem mem_leased (ha : a ∈ s.attempts) (hl : a.state.isLeased) : a.id ∈ s.leased :=
  List.mem_toFinset.mpr <| List.mem_map.mpr ⟨a, Table.mem_select.mpr ⟨ha, hl⟩, rfl⟩

theorem of_mem_leased (h : id ∈ s.leased) : ∃ a ∈ s.attempts, a.id = id ∧ a.state.isLeased := by
  have ⟨a, ha, hi⟩ := List.mem_map.mp <| List.mem_toFinset.mp h
  have ⟨ha, hl⟩ := Table.mem_select.mp ha
  exact ⟨a, ha, hi, hl⟩

theorem nodup_leasedAttempts : ((s.leasedAttempts limit).map (·.id)).Nodup :=
  Ranking.nodup_first Table.select_nodup

-- A pass that starts late enough gives up all attempts that it selects.
theorem expireLeases_late (h : s.Reached) (f : Fingerprints) (heartbeat : Nat) (t : Time) :
    ∃ now ≥ t, ∀ draws, (s.expireLeases f heartbeat now draws).Reached ∧
      ∀ b ∈ (s.expireLeases f heartbeat now draws).attempts, b.state.isActive →
        b ∈ s.attempts ∧ b.id ∉ (s.leasedAttempts 500).map (·.id) := by
  have ⟨last, hl⟩ : ∃ last, ∀ x ∈ insert t
      ((s.leasedAttempts 500).map (·.leaseExpiresAt + .seconds heartbeat)).toFinset, x ≤ last :=
    Finset.exists_le _
  have ho (a : Attempt) (ha : a ∈ s.leasedAttempts 500) :
      a.leaseExpiresAt + .seconds heartbeat < last + 1 := by
    refine Int.lt_add_one_of_le <| hl _ <| Finset.mem_insert_of_mem ?_
    exact List.mem_toFinset.mpr <| List.mem_map.mpr ⟨a, ha, rfl⟩
  refine ⟨last + 1, Int.le_add_one <| hl t <| Finset.mem_insert_self .., fun draws => ?_⟩
  have ⟨s₁, hc, h₁, he, hb⟩ :=
    claimRows_overdue h nodup_leasedAttempts (fun _ => mem_of_mem_leasedAttempts) ho
  simp only [expireLeases, claimExpiredAttempts, hc]
  have ⟨h', hb'⟩ := expireRows_expiring h₁ f draws nodup_leasedAttempts he
  refine ⟨h', fun b hm hs => ?_⟩
  have ⟨hm, hn⟩ := hb' b hm hs
  exact ⟨(hb b hn).mp hm, hn⟩

-- Some attempt is active while a run is running, and no other one.
theorem Reached.exists_active (h : s.Reached) {run : Run} (hr : run ∈ s.runs)
    (hs : run.state = .running) : ∃ a ∈ s.attempts, a.runId = run.id ∧ a.state.isActive := by
  obtain ⟨σ, hσ, rfl⟩ := h
  have hf := (hσ.lawful_of_mem hr).sound.active
  have hs : (σ.lifeOf run).state = .running := hs
  have ha : (σ.lifeOf run).activeCount = 1 := by simpa only [hs, Life.Fits] using hf
  obtain ⟨x, hx, hs⟩ := List.countP_pos_iff.mp (ha ▸ Nat.one_pos)
  obtain ⟨a, ha, rfl⟩ := List.mem_map.mp hx
  obtain ⟨ha, hi⟩ := Table.mem_select.mp ha
  exact ⟨a, ha, of_decide_eq_true hi, hs⟩

theorem Reached.active_unique (h : s.Reached) {b : Attempt} (ha : a ∈ s.attempts)
    (hb : b ∈ s.attempts) (hr : a.runId = b.runId) (ha' : a.state.isActive)
    (hb' : b.state.isActive) : a = b := by
  obtain ⟨σ, hσ, rfl⟩ := h
  have ⟨run, hg, hma⟩ := hσ.slot ha
  have ⟨run', hg', hmb⟩ := hσ.slot hb
  obtain rfl : run = run' := Option.some.inj <| hg.symm.trans (hr ▸ hg')
  have he := (hσ.lawful_of_mem <| Table.mem_of_get? hg).sound.active_unique hma hmb ha' hb'
  exact Table.key_injOn ha hb <| congrArg Slot.id he

variable {L : Type} [LinearOrder L] {load : Nat → Nat → L} {requirements : Uuid → Requirements}

theorem exists_passes {heartbeat : Nat} (h : s.Reached) (ha : a ∈ s.attempts)
    (hl : a.state.isLeased) (t : Time) : ∃ ps, Advancing t ps ∧
      ∀ run ∈ (s.passes load requirements f heartbeat ps).runs, run.id = a.runId →
        run.state ≠ .running := by
  -- As long as the run keeps running, every pass gives up another attempt.
  induction hn : s.leased.card using Nat.strong_induction_on generalizing s t
  case h n hi =>
    have ⟨now, hle, hp⟩ := expireLeases_late h f heartbeat t
    let draws : Uuid → Draws := fun _ => ⟨0, 0, default, now⟩
    have ⟨h', hb⟩ := hp draws
    let s' := s.expireLeases f heartbeat now draws
    have hd : (BackgroundPass.expireLeases now draws).During t now :=
      ⟨hle, fun _ => ⟨le_refl now, le_refl now⟩⟩
    by_cases hr : ∃ run ∈ s'.runs, run.id = a.runId ∧ run.state = .running
    case neg =>
      exact ⟨[.expireLeases now draws], .cons hd .nil, fun run hm hi hs => hr ⟨run, hm, hi, hs⟩⟩
    case pos =>
      have ⟨run, hm, hi', hs⟩ := hr
      have ⟨b, hm', hr', hs'⟩ := h'.exists_active hm hs
      have ⟨hm, hn'⟩ := hb b hm' hs'
      have ha' : a.state.isActive := AttemptState.isActive_of_isLeased hl
      obtain rfl : a = b := h.active_unique ha hm (hi'.symm.trans hr'.symm) ha' hs'
      have hc : s'.leased.card < n := by
        rw [← hn]
        refine Finset.card_lt_card ⟨fun id hx => ?_, fun hx => ?_⟩
        case refine_1 =>
          obtain ⟨c, hc, rfl, hl⟩ := of_mem_leased hx
          exact mem_leased (hb c hc <| AttemptState.isActive_of_isLeased hl).left hl
        case refine_2 =>
          have hn : s.leasedAttempts 500 ≠ [] :=
            Ranking.first_ne_nil (by decide) (Table.mem_select.mpr ⟨ha, hl⟩)
          have ⟨c, hc⟩ := List.exists_mem_of_ne_nil _ hn
          have ⟨hm, hl⟩ := mem_of_mem_leasedAttempts hc
          have ⟨c', hm', hi, hl'⟩ := of_mem_leased <| hx <| mem_leased hm hl
          have ⟨_, hn⟩ := hb c' hm' <| AttemptState.isActive_of_isLeased hl'
          exact hn <| List.mem_map.mpr ⟨c, hc, hi.symm⟩
      have ⟨ps, hp, hx⟩ := hi _ hc h' hm' now rfl
      exact ⟨.expireLeases now draws :: ps, .cons hd hp, hx⟩

end Recovery

end Store

namespace System

variable {L : Type} [LinearOrder L] {load : Nat → Nat → L} {requirements : Uuid → Requirements}
variable {σ : System} {run : Run} {f : Fingerprints}

end System

namespace Sample

-- The coordinator stops after it took the lease away and before it gave up the attempt.
def strandedOffer : List Action := offered ++ [.store (.claimExpiredAttempt 20 5 40000)]

end Sample

namespace System

open Sample

end System

end Scheduler
