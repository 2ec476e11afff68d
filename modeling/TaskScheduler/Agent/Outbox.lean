import TaskScheduler.Agent.Lifetimes
import TaskScheduler.Health.Agreement

namespace Scheduler

-- The attempt is over, or its lease was revoked.
def AttemptState.isClosed : AttemptState → Bool
  | expiring | finished | lateResult => true
  | _                                => false

theorem AttemptState.isClosed_of_isConcluded {st : AttemptState} (h : st.isConcluded) :
    st.isClosed := by
  cases st <;> simp_all [isClosed, isConcluded]

theorem AttemptState.not_isLeased_of_isClosed {st : AttemptState} (h : st.isClosed) :
    st.isLeased = false := by
  cases st <;> simp_all [isClosed, isLeased]

-- The call hands a result of the attempt to the store.
def Op.finishes (id : Uuid) : Op → Prop
  | .finishAttempt i .. | .finishExpiredAttempt i .. => i = id
  | _                                                => False

theorem Op.finishes.resultOf {op : Op} {id : Uuid} (h : op.finishes id) :
    op.resultOf = some id := by
  cases op <;> cases h <;> rfl

namespace Store

variable {s : Store} {op : Op} {ops : List Op} {id : Uuid}

def IsOver (s : Store) (id : Uuid) : Prop :=
  ∃ a ∈ s.attempts, a.id = id ∧ a.state.isConcluded

def IsClosed (s : Store) (id : Uuid) : Prop :=
  ∃ a ∈ s.attempts, a.id = id ∧ a.state.isClosed

theorem IsOver.exec (h : s.IsOver id) : (s.exec op).IsOver id := by
  have ⟨a, ha, hk, hc⟩ := h
  exact ⟨a, exec_mem_of_isConcluded ha hc, hk, hc⟩

theorem IsOver.run (h : s.IsOver id) :
    (database.run s ops).IsOver id := by
  induction ops generalizing s
  case nil => exact h
  case cons op ops hi => exact hi h.exec

theorem Settles.isOver {a : Attempt} {result : ExecutionResult} {encrypted : Sealed ExecutionResult}
    {s' : Store} (h : s.Settles a result encrypted s') : s'.IsOver a.id := by
  have ⟨b, hb, hk, hs⟩ := h.exists_mem
  exact ⟨b, hb, hk, hs.concluded⟩

-- An attempt that has lost its lease does not get it back.
theorem IsClosed.exec (h : s.IsClosed id) : (s.exec op).IsClosed id := by
  have ⟨a, ha, hk, hc⟩ := h
  cases ho : op.resultOf
  case none =>
    have hn := AttemptState.not_isLeased_of_isClosed hc
    exact ⟨a, (s.exec_step op).mem_of_not_isLeased ho ha hn, hk, hc⟩
  case some =>
    cases exec_settles (s := s) ho
    case inl hs =>
      rw [hs]
      exact h
    case inr hs =>
      have ⟨b, _, _, _, hs⟩ := hs
      by_cases hb : a.id = b.id
      case neg => exact ⟨a, hs.mem_of_ne ha hb, hk, hc⟩
      case pos =>
        have ⟨x, hx, hi, hc⟩ := hs.isOver
        exact ⟨x, hx, hi.trans <| hb.symm.trans hk, AttemptState.isClosed_of_isConcluded hc⟩

-- A result of an attempt that is over changes nothing.
theorem IsOver.finishes (h : s.IsOver id) (ho : op.finishes id) : s.exec op = s := by
  have ⟨a, ha, hk, hc⟩ := h
  apply (exec_settles ho.resultOf).resolve_right
  intro ⟨b, _, _, hb, hs⟩
  obtain rfl : a = b := Table.key_injOn ha (Table.mem_of_get? hs.attempt) (hk.trans hb.symm)
  simp [hs.pending] at hc

-- Of all calls with results of an attempt, one at most has an effect.
theorem finishes_once {op' : Op} (ho : op.finishes id) (hn : s.exec op ≠ s)
    (ho' : op'.finishes id) :
    (database.run (s.exec op) ops).exec op' = database.run (s.exec op) ops := by
  have ⟨a, _, _, hk, hs⟩ := (exec_settles ho.resultOf).resolve_left hn
  have hc : (s.exec op).IsOver id := hk ▸ hs.isOver
  exact hc.run.finishes ho'

end Store

namespace Handler

variable {f : Fingerprints} {s s' : Store} {d : Draws} {h : Handler} {next : Option Handler}

-- The handlers that will answer an agent have found that its attempt is closed.
def Answers (s : Store) : Handler → Prop
  | classify context _ reply | weigh context _ reply _ | record context _ reply _ _ =>
    reply → s.IsClosed context.attemptId
  | acknowledge id => s.IsClosed id
  | _              => True

theorem Answers.exec {op : Op} (ha : h.Answers s) : h.Answers (s.exec op) := by
  cases h
  case classify | weigh | record => exact fun hr => (ha hr).exec
  case acknowledge => exact Store.IsClosed.exec ha
  all_goals trivial

theorem Begins.answers (hb : h.Begins s) : h.Answers s := by
  cases hb
  case classify => exact nofun
  all_goals trivial

theorem Takes.answers (ht : h.Takes f s d s' next) (ha : h.Answers s) :
    ∀ x ∈ next, x.Answers s' := by
  cases ht
  case ended => simp
  case ignored a hg _ hs =>
    rintro _ ⟨⟩ _
    refine ⟨a, Table.mem_of_get? hg, Table.key_of_get? hg, ?_⟩
    cases hs
    case inl hs => exact hs ▸ rfl
    case inr hs => exact AttemptState.isClosed_of_isConcluded hs
  case finished hg _ _ _ hs =>
    rintro _ ⟨⟩ _
    have ⟨a, ha, hk, hc⟩ := hs.isOver
    exact ⟨a, ha, hk.trans <| Table.key_of_get? hg, AttemptState.isClosed_of_isConcluded hc⟩
  case rejected =>
    rintro _ ⟨⟩
    exact nofun
  case expired =>
    intro x hx
    have ⟨c, _, hx⟩ := Option.map_eq_some_iff.mp hx
    exact hx ▸ nofun
  case selected =>
    rintro _ ⟨⟩
    trivial
  case looked | weighed =>
    rintro _ ⟨⟩
    exact ha
  case recorded context _ reply _ threshold e _ _ hr =>
    intro x hx
    cases reply <;> cases hx
    have hx : s.exec (.recordHealthEvidence e threshold d.id d.order d.now) = s' := by
      simp [Store.exec, hr]
    exact hx ▸ (ha rfl).exec

end Handler

-- The coordinator and its agents. The acknowledgements that were sent may arrive any number of
-- times and in any order, at any agent; the results that the coordinator receives may be anything.
structure Cluster where
  coordinator : Handlers
  agents      : String → AgentProcess

inductive ClusterEvent
  | coordinator (ev : HandlerEvent)
  | agent (agentId : String) (act : LedgerAction)

def LedgerAction.acknowledged : LedgerAction → Option Uuid
  | .acknowledge id _ => some id
  | _                 => none

namespace Cluster

def initial (runners : String → String) : Cluster where
  coordinator := .initial
  agents name := .initial (runners name)

def exec (f : Fingerprints) (d : Decoder) (σ : Cluster) : ClusterEvent → Cluster
  | .coordinator ev => { σ with coordinator := σ.coordinator.exec f ev }
  | .agent name act =>
    { σ with agents := Function.update σ.agents name ((σ.agents name).exec d act) }

def Enabled (f : Fingerprints) (d : Decoder) (σ : Cluster) : ClusterEvent → Prop
  | .coordinator ev => (handling f).Enabled σ.coordinator ev
  | .agent name act => (σ.agents name).Enabled d act ∧
      ∀ id ∈ act.acknowledged, ∃ x ∈ σ.coordinator.sent, x.1 = id

instance {f : Fingerprints} {d : Decoder} {σ : Cluster} {ev : ClusterEvent} :
    Decidable (σ.Enabled f d ev) :=
  match ev with
  | .coordinator ev => inferInstanceAs (Decidable ((handling f).Enabled σ.coordinator ev))
  | .agent name act => inferInstanceAs <| Decidable <| (σ.agents name).Enabled d act ∧
      ∀ id ∈ act.acknowledged, ∃ x ∈ σ.coordinator.sent, x.1 = id

end Cluster

def cluster (f : Fingerprints) (d : Decoder) : Machine Cluster ClusterEvent where
  exec    := Cluster.exec f d
  Enabled := Cluster.Enabled f d

instance {f : Fingerprints} {d : Decoder} {σ : Cluster} {ev : ClusterEvent} :
    Decidable ((cluster f d).Enabled σ ev) :=
  inferInstanceAs (Decidable (σ.Enabled f d ev))

namespace Cluster

variable {f : Fingerprints} {d : Decoder} {σ : Cluster} {runners : String → String}

-- What an acknowledgement says is true when it is sent, and no row is acknowledged without one.
structure Faithful (σ : Cluster) : Prop where
  handlers : σ.coordinator.Holds (fun _ => True) fun s h => h.Answers s
  sent     : ∀ x ∈ σ.coordinator.sent, ∃ st ∈ x.2, st.isClosed
  rows     : ∀ name, ∀ r ∈ (σ.agents name).ledger.assignments, r.state = .acknowledged →
    ∃ x ∈ σ.coordinator.sent, x.1 = r.attemptId

theorem sent_exec {st : Handlers} {ev : HandlerEvent} :
    (st.exec f ev).sent = st.sent ∨ ∃ k id, st.handlers k = some (.acknowledge id) ∧
      (st.exec f ev).sent = (id, (st.store.attempts.get? id).map (·.state)) :: st.sent := by
  cases ev
  case step k d =>
    simp only [Handlers.exec, Handlers.advance]
    split
    case h_1 => exact .inl rfl
    case h_2 h hk =>
      cases h
      case acknowledge id => exact .inr ⟨k, id, hk, rfl⟩
      all_goals exact .inl rfl
  case claim =>
    simp only [Handlers.exec]
    split <;> exact .inl rfl
  all_goals exact .inl rfl

theorem Faithful.coordinator (h : σ.Faithful) {ev : HandlerEvent}
    (he : (handling f).Enabled σ.coordinator ev) : (σ.exec f d (.coordinator ev)).Faithful := by
  have hs : (σ.coordinator.exec f ev).sent = σ.coordinator.sent ∨ _ := sent_exec
  have hm : ∀ x ∈ σ.coordinator.sent, x ∈ (σ.coordinator.exec f ev).sent := by
    intro x hx
    cases hs
    case inl hs => exact hs ▸ hx
    case inr hs =>
      obtain ⟨_, _, _, hs⟩ := hs
      exact hs ▸ List.mem_cons_of_mem _ hx
  constructor
  case handlers =>
    apply h.handlers.exec he (Q := fun _ _ => True)
    case hq => exact fun _ _ _ _ _ => trivial
    case others => exact fun _ _ _ _ _ => trivial
    case stable => exact fun _ _ _ ha => ha.exec
    case begins => exact fun _ _ _ hb => hb.answers
    case takes => exact fun _ _ _ _ _ _ ha _ ht => ⟨trivial, ht.answers ha⟩
  case sent =>
    intro x hx
    cases hs
    case inl hs => exact h.sent x (hs ▸ hx)
    case inr hs =>
      obtain ⟨k, id, hk, hs⟩ := hs
      have hx : x ∈ (_ :: _) := hs ▸ hx
      cases hx
      case tail hx => exact h.sent x hx
      case head =>
        obtain ⟨a, ha, hi, hc⟩ := h.handlers.handlers k _ hk
        subst hi
        have hg : σ.coordinator.store.attempts.get? a.id = some a := Table.get?_of_mem ha
        simp [hg, hc]
  case rows =>
    intro name r hr hs
    obtain ⟨x, hx, hi⟩ := h.rows name r hr hs
    exact ⟨x, hm x hx, hi⟩

theorem Faithful.agent (h : σ.Faithful) {name : String} {act : LedgerAction}
    (he : (cluster f d).Enabled σ (.agent name act)) : (σ.exec f d (.agent name act)).Faithful := by
  refine ⟨h.handlers, h.sent, fun n r hr hs => ?_⟩
  simp only [exec, Function.update_apply] at hr
  split at hr
  case isFalse => exact h.rows n r hr hs
  case isTrue hn =>
    have hg : ((σ.agents name).exec d act).row? r.attemptId = some r := Table.get?_of_mem hr
    cases hx : (σ.agents name).row? r.attemptId
    case none =>
      have ⟨_, _, _, _, _, hr⟩ := AgentProcess.exec_new he.left hx hg
      rw [hr] at hs
      exact nomatch hs
    case some r₀ =>
      have ⟨r', hr', hm⟩ := AgentProcess.exec_row he.left hx
      obtain rfl : r' = r := Option.some.inj <| hr'.symm.trans hg
      have h₀ := h.rows name r₀ (Table.mem_of_get? hx)
      cases hm
      case same => exact h₀ hs
      case acknowledge => exact he.right _ rfl
      case cancel =>
        simp only at hs
        split at hs <;> contradiction
      all_goals exact nomatch hs

theorem Faithful.of_reachable (h : (cluster f d).Reachable (.initial runners) σ) : σ.Faithful := by
  have hi : (initial runners).Faithful :=
    ⟨⟨trivial, by simp [initial, Handlers.initial]⟩, by simp [initial, Handlers.initial],
      fun _ _ h => absurd h Table.not_mem_empty⟩
  apply h.invariant (I := Faithful) (fun σ ev hs he => ?_) hi
  cases ev
  case coordinator => exact hs.coordinator (d := d) he
  case agent => exact hs.agent he

theorem results_applied_once (h : (cluster f d).Reachable (.initial runners) σ) :
    (∀ id op ops op', op.finishes id → op'.finishes id →
      σ.coordinator.store.exec op ≠ σ.coordinator.store →
      (database.run (σ.coordinator.store.exec op) ops).exec op' =
        database.run (σ.coordinator.store.exec op) ops) ∧
    ∀ name, ∀ r ∈ (σ.agents name).ledger.assignments, r.state = .acknowledged →
      ∃ st, (r.attemptId, some st) ∈ σ.coordinator.sent ∧ st.isClosed := by
  have hf := Faithful.of_reachable h
  refine ⟨fun _ _ _ _ ho ho' hn => Store.finishes_once ho hn ho', fun name r hr hs => ?_⟩
  have ⟨x, hx, hi⟩ := hf.rows name r hr hs
  have ⟨st, hs, hc⟩ := hf.sent x hx
  have he : x = (r.attemptId, some st) := Prod.ext hi hs
  exact ⟨st, he ▸ hx, hc⟩

end Cluster

namespace Sample

def offer : ExecutionAssignment :=
  { assignment 20 with leaseToken := "token" }

def outboxDecoder : Decoder where
  parse _         := some offer
  understands _ _ := true

-- The agent executes the only run and reports its result, and the answer arrives twice.
def acknowledgedTwice : List ClusterEvent :=
  executing.map .coordinator ++ [
    .agent "agent" (.record offer "offer" 0),
    .agent "agent" (.claim offer "offer" 0),
    .agent "agent" (.start 20 0),
    .agent "agent" (.saveResult 20 "result" 1000),
    .coordinator (.result 0 20 "token" (result .succeeded))
  ] ++ (classifying 0 1000).map .coordinator ++ [
    .coordinator (.step 0 (drawn 1000)),
    .agent "agent" (.acknowledge 20 2000),
    .agent "agent" (.acknowledge 20 3000)
  ]

end Sample

namespace Cluster

open Sample

theorem results_applied_once_acknowledged :
    let σ := (cluster fingerprints outboxDecoder).run (.initial fun _ => "v1") acknowledgedTwice
    ∃ r ∈ (σ.agents "agent").ledger.assignments, r.state = .acknowledged ∧
      ∃ st, (r.attemptId, some st) ∈ σ.coordinator.sent ∧ st.isClosed := by
  intro σ
  have h : (cluster fingerprints outboxDecoder).Reachable (.initial fun _ => "v1") σ :=
    ⟨acknowledgedTwice, by decide, rfl⟩
  have ⟨r, hr, hs⟩ : ∃ r ∈ (σ.agents "agent").ledger.assignments, r.state = .acknowledged := by
    decide
  exact ⟨r, hr, hs, (results_applied_once h).right "agent" r hr hs⟩

end Cluster

end Scheduler
