import TaskScheduler.Coordinator.Runs
import TaskScheduler.Lifecycle.Cancellation

namespace Scheduler

-- The attempts that an agent speaks of in the message behind a transaction.
def Op.reported : Op → List Uuid
  | .rejectOffer id .. | .acceptAttempt id .. | .reauthorizeAttempt id .. | .finishAttempt id .. => [id]
  | .renewAttempts _ ids _ _ _ => ids
  | _ => []

-- An agent only speaks of assignments that reached it.
def System.Heard (σ : System) : Action → Prop
  | .store op   => ∀ id ∈ op.reported, σ.delivery id = .sent
  | .deliver .. => True

instance {σ : System} {act : Action} : Decidable (σ.Heard act) :=
  match act with
  | .store op   => inferInstanceAs (Decidable (∀ id ∈ op.reported, σ.delivery id = .sent))
  | .deliver .. => inferInstanceAs (Decidable True)

-- The coordinator among agents that follow the protocol.
def network : Machine System Action :=
  coordinator.restrict System.Heard

instance {σ : System} {act : Action} : Decidable (network.Enabled σ act) :=
  inferInstanceAs (Decidable (coordinator.Enabled σ act ∧ σ.Heard act))

namespace Store

-- A transaction succeeds in making or keeping the attempt `id` accepted, with a new lease.
def extendsLease (s : Store) (id : Uuid) : Op → Bool
  | .acceptAttempt i token lease now => i = id && (s.acceptAttempt i token lease now).isOk
  | .renewAttempts agentId ids lease running now =>
    match s.renewAttempts agentId ids lease running now with
    | .ok (renewed, _) => id ∈ renewed
    | .error _         => false
  | .reauthorizeAttempt i agentId token lease now =>
    match s.reauthorizeAttempt i agentId token lease now with
    | .ok (renewed, _) => i = id && renewed
    | .error _         => false
  | _ => false

-- The attempts that are sent a `Cancel` message once a run or a batch was cancelled.
def notified (s : Store) : Op → Option (List (String × Uuid))
  | .cancelRun runId now     => (s.cancelRun runId now).toOption.map (·.1)
  | .cancelBatch batchId now => (s.cancelBatch batchId now).toOption.map (·.1)
  | _                        => none

variable {s : Store} {op : Op} {a : Attempt}

theorem acceptAttempt_isOk (ha : a ∈ s.attempts) {token lease now} :
    (s.acceptAttempt a.id token lease now).isOk = (a.leaseToken = token && a.state.isLeased) := by
  have hg : s.attempts.get? a.id = some a := Table.get?_of_mem ha
  by_cases ht : a.leaseToken = token <;> cases hs : a.state.isLeased <;>
    simp [acceptAttempt, hg, ht, hs, Transaction.bail, Transaction.commit, Except.isOk, Except.toBool]

theorem extendsLease_renew (ha : a ∈ s.attempts) (hs : a.state = .accepted) :
    s.extendsLease a.id (.renewAttempts a.agentId [a.id] 0 0 0) := by
  simp only [extendsLease, renewAttempts, Transaction.commit, decide_eq_true_eq]
  refine List.mem_filter.mpr ⟨List.mem_singleton.mpr rfl, List.any_eq_true.mpr ⟨a, ha, ?_⟩⟩
  simp [renewable, hs]

theorem extendsLease_accept (ha : a ∈ s.attempts) (hs : a.state = .offered) :
    s.extendsLease a.id (.acceptAttempt a.id a.leaseToken 0 0) := by
  simp [extendsLease, acceptAttempt_isOk ha, hs, AttemptState.isLeased]

-- Each of the lease operations has its own guard.
theorem state_of_extendsLease (ha : a ∈ s.attempts) (h : s.extendsLease a.id op) :
    a.id ∈ op.reported ∧ (a.state = .offered ∨ a.state = .accepted) := by
  have hg : s.attempts.get? a.id = some a := Table.get?_of_mem ha
  cases op
  case acceptAttempt i token lease now =>
    simp only [extendsLease, Bool.and_eq_true, decide_eq_true_eq] at h
    obtain ⟨rfl, h⟩ := h
    rw [acceptAttempt_isOk ha, Bool.and_eq_true] at h
    exact ⟨by simp [Op.reported], Core.isLeased_iff.mp h.right⟩
  case renewAttempts agentId ids lease running now =>
    simp only [extendsLease, renewAttempts, Transaction.commit, decide_eq_true_eq, List.mem_filter,
      List.any_eq_true] at h
    obtain ⟨hi, b, hb, hr⟩ := h
    simp only [renewable, Bool.and_eq_true, decide_eq_true_eq] at hr
    obtain rfl : b = a := Table.key_injOn hb ha hr.left.left
    exact ⟨hi, .inr hr.right⟩
  case reauthorizeAttempt i agentId token lease now =>
    simp only [extendsLease, reauthorizeAttempt] at h
    by_cases hi : i = a.id
    case neg => split at h <;> simp_all
    case pos =>
      subst hi
      simp only [hg] at h
      refine ⟨by simp [Op.reported], .inr ?_⟩
      by_contra hn
      simp [hn, Transaction.commit] at h
  all_goals simp [extendsLease] at h

end Store

namespace System

variable {σ σ' : System} {act : Action} {run run' : Run} {op : Op} {r : Uuid} {l : Life}

theorem received_of_heard {e : Life.Event} (h : σ.Heard act) (hl : σ.life r = some l)
    (hm : act.Emits r e) : l.Received e := by
  intro a ha he
  subst he
  cases hm
  have ⟨run, _, hl⟩ := Option.map_eq_some_iff.mp hl
  subst hl
  have ⟨b, _, hb⟩ := List.mem_map.mp ha
  subst hb
  exact h _ <| List.mem_singleton.mpr rfl

theorem reachable_of_network (h : network.Reachable .initial σ) : σ.Reachable :=
  Machine.Reachable.of_restrict h

-- One action among agents that follow the protocol, seen from the life of a run.
theorem network_cases (h : σ.Reachable) (ha : network.Enabled σ act) (hl : σ.life r = some l) :
    (σ.exec act).life r = some l ∨ ∃ e, act.Emits r e ∧ l.Enabled e ∧ l.Received e ∧
      (σ.exec act).life r = some (l.exec e) := by
  have he := life_exec (r := r) h.wellFormed ha.left
  rw [hl] at he
  obtain he | ⟨e, hm, he, hx⟩ := he.of_some
  case inl => exact .inl he
  case inr => exact .inr ⟨e, hm, he, received_of_heard ha.right hl hm, hx⟩

theorem acknowledged (h : network.Reachable .initial σ) (hl : σ.life r = some l) :
    l.Acknowledged := by
  let I (σ : System) : Prop := σ.Reachable ∧ ∀ l, σ.life r = some l → l.Acknowledged
  have step σ act (hi : I σ) (ha : network.Enabled σ act) : I (network.exec σ act) := by
    refine ⟨hi.left.exec ha.left, fun l' hl' => ?_⟩
    cases hl : σ.life r
    case none =>
      have he := life_exec (r := r) hi.left.wellFormed ha.left
      rw [hl] at he
      change Evolves act r none ((network.exec σ act).life r) at he
      rw [hl'] at he
      cases he
      exact .initial
    case some l =>
      have hk := hi.right l hl
      obtain hx | ⟨e, _, he, hr, hx⟩ := network_cases hi.left ha hl
      case inl => exact Option.some.inj (hl'.symm.trans hx) ▸ hk
      case inr => exact Option.some.inj (hl'.symm.trans hx) ▸ hk.exec (hi.left.lawful hl).sound he hr
  have init : I .initial := ⟨.refl, fun l hl => by simp [life_initial] at hl⟩
  exact (Machine.Reachable.invariant step h init).right l hl

-- No lease of an attempt of the run `r` is granted or extended in any future of `σ`.
def NoLeaseAfter (σ : System) (r : Uuid) : Prop :=
  ∀ as, network.Valid σ as → ∀ op, network.Enabled (network.run σ as) (.store op) →
    ∀ a ∈ (network.run σ as).store.attemptsOf r, ¬(network.run σ as).store.extendsLease a.id op

theorem noLeaseAfter_of_stopped (h : σ.Reachable) (hl : σ.life r = some l) (hs : l.Stopped) :
    σ.NoLeaseAfter r := by
  intro as hv op ho a ha hx
  let I (σ : System) : Prop := σ.Reachable ∧ ∃ l, σ.life r = some l ∧ l.Stopped
  have step σ act (hi : I σ) (ha : network.Enabled σ act) : I (network.exec σ act) := by
    obtain ⟨hr, l, hl, hs⟩ := hi
    refine ⟨hr.exec ha.left, ?_⟩
    obtain hx | ⟨e, _, he, hd, hx⟩ := network_cases hr ha hl
    case inl => exact ⟨l, hx, hs⟩
    case inr => exact ⟨_, hx, hs.exec (hr.lawful hl).sound he hd⟩
  have ⟨_, l, hl, hs⟩ := hv.invariant step ⟨h, l, hl, hs⟩
  obtain ⟨_, _, rfl⟩ := Option.map_eq_some_iff.mp hl
  have ⟨ha, hr⟩ := Table.mem_select.mp ha
  have ⟨hn, hf⟩ := hs.slots _ <| (of_decide_eq_true hr) ▸ Core.mem_slots ha
  have ⟨hm, hc⟩ := Store.state_of_extendsLease ha hx
  have hd : (network.run σ as).delivery a.id = .sent := ho.right a.id hm
  rcases hc with hc | hc
  case inl => exact nomatch (hf hc).symm.trans hd
  case inr => exact hn hc

theorem stopped_of_noLeaseAfter (h : network.Reachable .initial σ) (hr : run ∈ σ.store.runs)
    (hc : run.state = .cancelled) (hn : σ.NoLeaseAfter run.id) : (σ.lifeOf run).Stopped := by
  refine ⟨hc, fun b hb => ?_⟩
  have hk := acknowledged h (life_of_mem hr) b hb
  have ⟨a, ha, hb⟩ := List.mem_map.mp hb
  subst hb
  have hm := (Table.mem_select.mp ha).left
  constructor
  case left =>
    intro hs
    have he : network.Enabled σ (.store (.renewAttempts a.agentId [a.id] 0 0 0)) :=
      ⟨nofun, List.forall_mem_singleton.mpr <| hk hs⟩
    exact hn [] .nil _ he a ha <| Store.extendsLease_renew hm hs
  case right =>
    intro hs
    have he {d} (hd : d a.id = .sent) : network.Enabled { σ with delivery := d }
        (.store (.acceptAttempt a.id a.leaseToken 0 0)) :=
      ⟨nofun, List.forall_mem_singleton.mpr hd⟩
    cases hd : σ.delivery a.id
    case failed => exact hd
    case sent =>
      exact absurd (Store.extendsLease_accept hm hs) <| hn [] .nil _ (he hd) a ha
    case pending =>
      -- The assignment is on its way: it arrives after the cancellation and is accepted.
      have hi : (σ.store.attempts.get? a.id).isSome := Option.isSome_of_eq_some (Table.get?_of_mem hm)
      have hv : network.Valid σ [.deliver a.id .sent] := .singleton ⟨⟨hi, hd, nofun⟩, trivial⟩
      exact absurd (Store.extendsLease_accept hm hs) <|
        hn _ hv _ (he <| Function.update_self ..) a ha

-- Cancelling `run` with the transaction `op` is final: its attempts get no further leases, and those
-- that reached an agent are told.
structure CancelsFinally (σ : System) (op : Op) (r : Uuid) (notified : List (String × Uuid)) : Prop where
  leases   : (σ.exec (.store op)).NoLeaseAfter r
  notified : ∀ a ∈ σ.store.attemptsOf r, a.state.isLeased → σ.delivery a.id = .sent →
    (a.agentId, a.id) ∈ notified

-- Neither `accept_attempt` nor `renew_attempts` looks at the run, so a cancellation is final if and
-- only if no attempt is accepted and no offer can still be.
theorem cancellation_final_iff (h : network.Reachable .initial σ) {notified : List (String × Uuid)}
    (ho : σ.store.notified op = some notified) (hr : run ∈ σ.store.runs) (ha : run.state.isActive)
    (hr' : run' ∈ (σ.store.exec op).runs) (hi : run'.id = run.id) (hc : run'.state = .cancelled) :
    σ.CancelsFinally op run.id notified ↔ ∀ a ∈ σ.store.attemptsOf run.id,
      a.state ≠ .accepted ∧ (a.state = .offered → σ.delivery a.id = .failed) := by
  have he : network.Enabled σ (.store op) := by
    cases op
    case cancelRun => exact ⟨by rintro _ ⟨⟩, by rintro _ ⟨⟩⟩
    case cancelBatch => exact ⟨by rintro _ ⟨⟩, by rintro _ ⟨⟩⟩
    all_goals simp [Store.notified] at ho
  have hc' : σ.Enabled (.store op) := he.left
  have hx : (σ.exec (.store op)).lifeOf run' = (σ.lifeOf run).exec .cancel := by
    obtain hx | ⟨e, hm, _, hx⟩ := (reachable_of_network h).exec_cases hc' hr hr' hi
    case inl =>
      have hs : run'.state = run.state := congrArg Life.state hx
      simp [← hs, hc, RunState.isActive, RunState.isTerminal] at ha
    case inr =>
      cases hm <;> first | exact hx | simp [Store.notified] at ho
  have hs : ((σ.exec (.store op)).lifeOf run').Stopped ↔ ∀ a ∈ σ.store.attemptsOf run.id,
      a.state ≠ .accepted ∧ (a.state = .offered → σ.delivery a.id = .failed) := by
    rw [hx]
    exact ⟨fun hs => List.forall_mem_map.mp hs.slots, fun hs => ⟨rfl, List.forall_mem_map.mpr hs⟩⟩
  rw [← hs]
  constructor
  case mp =>
    intro hf
    exact stopped_of_noLeaseAfter (h.exec he) hr' hc <| hi ▸ hf.leases
  case mpr =>
    intro hn
    constructor
    case leases =>
      exact hi ▸ noLeaseAfter_of_stopped (reachable_of_network <| h.exec he) (life_of_mem hr') hn
    case notified =>
      intro a ha hl hd
      obtain ⟨hn, hf⟩ := hs.mp hn a ha
      rcases Core.isLeased_iff.mp hl with hl | hl
      case inl => cases (hf hl).symm.trans hd
      case inr => contradiction

open Sample

-- The offer whose message was lost can be cancelled for good.
theorem cancellation_final_iff_undelivered :
    (after undelivered).CancelsFinally (.cancelRun 10 0) 10 [] := by
  have hr : { Sample.run.row 0 with state := .running } ∈ (after undelivered).store.runs := by decide
  have hr' : { Sample.run.row 0 with state := .cancelled } ∈
    ((after undelivered).store.exec (.cancelRun 10 0)).runs := by decide
  exact (cancellation_final_iff ⟨undelivered, by decide, rfl⟩ (by decide) hr (by decide) hr' rfl rfl).mpr
    (by decide)

-- The run is cancelled while its offer is in flight. Nobody is told, and the acceptance succeeds.
theorem cancellation_not_final :
    network.Reachable .initial (after offered) ∧
    (after offered).store.notified (.cancelRun 10 0) = some [] ∧
    ¬(after offered).CancelsFinally (.cancelRun 10 0) 10 [] := by
  refine ⟨⟨offered, by decide, rfl⟩, by decide, fun h => ?_⟩
  let a : Attempt := Store.empty.newAttempt 10 "agent" 30 20 "token" 0
  exact h.leases [] .nil (.acceptAttempt 20 "token" 30 0) (by decide) a (by decide) (by decide)

end System

end Scheduler
