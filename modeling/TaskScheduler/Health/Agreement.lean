import TaskScheduler.Health.Handlers

namespace Scheduler

-- What the outcome and the diagnostic of an attempt amount to.
def Attempt.classification (a : Attempt) : Option HealthClassification :=
  a.outcome.map (classifyResult · a.diagnostic)

theorem Attempt.Shows.classification {a : Attempt} {result : ExecutionResult}
    {encrypted : Sealed ExecutionResult} (h : a.Shows result encrypted) :
    a.classification = some result.classification := by
  simp [Attempt.classification, ExecutionResult.classification, h.outcome, h.diagnostic]

namespace Store

variable {s s' : Store} {op : Op} {id : Uuid} {c : HealthClassification} {a : Attempt}
variable {e : NewHealthEvidence} {nodes : Nat} {order : HashOrder} {now : Time}

-- The attempt is over, with a result of this class and family.
def Verdict (s : Store) (id : Uuid) (c : HealthClassification) : Prop :=
  ∃ a ∈ s.attempts, a.id = id ∧ a.state.isConcluded ∧ a.classification = some c

-- Evidence is about results that are there, and so are the ones that the reconciliation reads.
structure Agrees (s : Store) : Prop where
  evidence : ∀ e ∈ s.healthEvidence, ∀ id ∈ e.attemptId, s.Verdict id e.classification
  stored   : ∀ a ∈ s.attempts, a.state.isConcluded → ∀ result,
    a.encryptedResult = some (some result) → a.classification = some result.classification

theorem Verdict.exec (h : s.Verdict id c) : (s.exec op).Verdict id c := by
  have ⟨a, ha, hi, hc, hx⟩ := h
  exact ⟨a, exec_mem_of_isConcluded ha hc, hi, hc, hx⟩

theorem Settles.verdict {result : ExecutionResult} (h : s.Settles a result (some result) s') :
    s'.Verdict a.id result.classification := by
  have ⟨b, hb, hk, hs⟩ := h.exists_mem
  exact ⟨b, hb, hk, hs.concluded, hs.classification⟩

theorem isClassified_iff : s.isClassified id ↔ ∃ e ∈ s.healthEvidence, e.attemptId = some id := by
  simp [isClassified, ← Table.mem_rows]

section Recorded

variable {s₁ : Store} {st : InputHealthState}

-- Confirmations take evidence back, but leave it where it is.
theorem Recorded.mem_evidence (h : s.Recorded e nodes id order now s₁ st s') {x : HealthEvidence}
    (hx : x ∈ s'.healthEvidence) :
    ∃ y ∈ s₁.healthEvidence, x = { y with retracted := x.retracted } := by
  rw [h.evidence] at hx
  have ⟨y, hy, he⟩ := Table.mem_update.mp hx
  refine ⟨y, hy, ?_⟩
  split at he <;> cases he <;> rfl

theorem Recorded.exists_evidence (h : s.Recorded e nodes id order now s₁ st s')
    {y : HealthEvidence} (hy : y ∈ s.healthEvidence) :
    ∃ x ∈ s'.healthEvidence, x.attemptId = y.attemptId := by
  rw [h.evidence]
  refine ⟨_, Table.mem_update_of_mem <| mem_of_insertEvidence h.inserted hy, ?_⟩
  split <;> rfl

end Recorded

theorem exec_healthEvidence (ho : op.isEvidence = false) :
    (s.exec op).healthEvidence = s.healthEvidence := by
  have hf := s.exec_frame op
  cases op
  case recordHealthEvidence => contradiction
  all_goals exact hf.healthEvidence (by simp [Op.writes, Op.writes.concluding])

theorem isClassified_exec (h : s.isClassified id) : (s.exec op).isClassified id := by
  cases ho : op.isEvidence
  case false =>
    rw [isClassified, exec_healthEvidence ho]
    exact h
  case true =>
    cases op <;> try contradiction
    case recordHealthEvidence e nodes k order now =>
      simp only [exec]
      cases hr : s.recordHealthEvidence e nodes k order now
      case error => exact h
      case ok r =>
        obtain ⟨st, s'⟩ := r
        obtain ⟨s₁, hr⟩ := recorded hr
        obtain ⟨y, hy, hi⟩ := isClassified_iff.mp h
        obtain ⟨x, hx, he⟩ := hr.exists_evidence hy
        exact isClassified_iff.mpr ⟨x, hx, he.trans hi⟩

namespace Agrees

theorem exec (h : s.Agrees) (ho : op.resultOf = none) (he : op.isEvidence = false) :
    (s.exec op).Agrees where
  evidence := fun e hm id hi => (h.evidence e (exec_healthEvidence he ▸ hm) id hi).exec
  stored   := fun a hm hc => h.stored a (mem_of_exec_concluded ho hm hc) hc

theorem settles {result : ExecutionResult} (h : s.Agrees) (he : op.isEvidence = false)
    (hs : s.Settles a result (some result) (s.exec op)) : (s.exec op).Agrees where
  evidence := fun e hm id hi => (h.evidence e (exec_healthEvidence he ▸ hm) id hi).exec
  stored   := by
    intro b hb hc r hr
    cases hs.eq_or_shows hb
    case inl hb => exact h.stored b hb.left hc r hr
    case inr hb =>
      have hx := hb.right
      rw [hx.encrypted] at hr
      cases hr
      exact hx.classification

theorem recorded {s₁ : Store} {st : InputHealthState} (h : s.Agrees)
    (hr : s.Recorded e nodes id order now s₁ st s')
    (hv : ∀ k ∈ e.attemptId, s.isClassified k = false → s.Verdict k e.classification) :
    s'.Agrees := by
  have ht {k c} (hk : s.Verdict k c) : s'.Verdict k c := by
    simpa only [Verdict, hr.attempts] using hk
  refine ⟨fun x hx k hk => ?_, by simpa only [hr.attempts] using h.stored⟩
  have ⟨y, hy, he⟩ := hr.mem_evidence hx
  rw [he] at hk ⊢
  apply ht
  cases insertEvidence_cases hr.inserted
  case inl hs => exact h.evidence y (hs ▸ hy) k hk
  case inr hs =>
    have ⟨_, hn, hi, hs⟩ := hs
    rw [hs] at hy
    cases (Table.mem_of_insert hi).mp hy
    case inl hy => exact h.evidence y hy k hk
    case inr hy =>
      subst hy
      exact hv k hk (hn k hk)

end Agrees

end Store

namespace Handler

variable {f : Fingerprints} {s s' : Store} {d : Draws} {h : Handler} {next : Option Handler}

-- The attempt that a handler is about to classify is classified, or it has ended like this.
def Justified (s : Store) : Handler → Prop
  | expire attempt context => ∀ c ∈ context, c.attemptId = attempt.id
  | classify context result _ | weigh context result .. | record context result .. =>
    s.isClassified context.attemptId ∨ s.Verdict context.attemptId result.classification
  | _ => True

-- A result comes before its lease was revoked, and is not in conflict with one that is already
-- stored but not yet classified.
def Undisputed (s : Store) : Handler → Prop
  | finish context token result =>
    ∀ a ∈ s.attempts.get? context.attemptId, a.leaseToken = token →
      a.state ≠ .expiring ∧ (a.state.isConcluded → s.isClassified a.id = false →
        a.classification = some result.classification)
  | _ => True

instance : Decidable (h.Undisputed s) :=
  match h with
  | finish context token result => inferInstanceAs <| Decidable <|
      ∀ a ∈ s.attempts.get? context.attemptId, a.leaseToken = token →
        a.state ≠ .expiring ∧ (a.state.isConcluded → s.isClassified a.id = false →
          a.classification = some result.classification)
  | reject .. | claimed _ | expire .. | classify .. | weigh .. | record .. | acknowledge _ =>
    .isTrue trivial

theorem Justified.exec {op : Op} (hj : h.Justified s) : h.Justified (s.exec op) := by
  cases h
  case classify | weigh | record => exact hj.imp Store.isClassified_exec Store.Verdict.exec
  all_goals exact hj

theorem Begins.justified (ha : s.Agrees) (hb : h.Begins s) : h.Justified s := by
  cases hb
  case classify a _ _ hg hn hc hr =>
    have ⟨hn, _⟩ := Bool.and_eq_true_iff.mp hn
    have ⟨hn, _⟩ := Bool.and_eq_true_iff.mp hn
    have hs : a.state.isConcluded := by simp [of_decide_eq_true hn, AttemptState.isConcluded]
    have hm := Table.mem_of_get? hg
    refine .inr ⟨a, hm, ?_, hs, ha.stored a hm hs _ hr⟩
    exact (Table.key_of_get? hg).trans (Store.attemptHealthContext_attemptId hc).symm
  all_goals trivial

theorem Takes.justified (ht : h.Takes f s d s' next) (ha : s.Agrees) (hj : h.Justified s)
    (hu : h.Undisputed s) : s'.Agrees ∧ ∀ x ∈ next, x.Justified s' := by
  cases ht
  case ended => exact ⟨ha, by simp⟩
  case ignored a hg ht hs =>
    have ⟨hn, hu⟩ := hu a hg ht
    have hi : a.id = _ := Table.key_of_get? hg
    refine ⟨ha, ?_⟩
    rintro _ ⟨⟩
    cases hc : s.isClassified a.id
    case true => exact .inl <| hi ▸ hc
    case false =>
      have hs := hs.resolve_left hn
      exact .inr ⟨a, Table.mem_of_get? hg, hi, hs, hu hs hc⟩
  case finished hg _ _ hx hs | rejected hg hx hs =>
    subst hx
    refine ⟨ha.settles rfl hs, ?_⟩
    rintro _ ⟨⟩
    exact .inr <| Table.key_of_get? hg ▸ hs.verdict
  case expired hg hx hs =>
    subst hx
    refine ⟨ha.settles rfl hs, fun x hx => ?_⟩
    have ⟨c, hc, hx⟩ := Option.map_eq_some_iff.mp hx
    subst hx
    have hk : c.attemptId = _ := (hj c hc).trans (Table.key_of_get? hg).symm
    exact .inr <| hk ▸ hs.verdict
  case selected =>
    refine ⟨ha, ?_⟩
    rintro _ ⟨⟩ c hc
    exact Store.attemptHealthContext_attemptId hc
  case looked | weighed =>
    refine ⟨ha, ?_⟩
    rintro _ ⟨⟩
    exact hj
  case recorded context result reply healthy _ e _ he hr =>
    have ⟨s₁, hr⟩ := Store.recorded hr
    have ⟨_, _, he⟩ := Option.map_eq_some_iff.mp he
    subst he
    refine ⟨ha.recorded hr fun k hk hn => ?_, fun x hx => ?_⟩
    case refine_1 =>
      cases hk
      exact hj.resolve_left (by simp [hn])
    case refine_2 =>
      cases reply <;> cases hx
      trivial

end Handler

namespace Handlers

variable {f : Fingerprints} {st : Handlers}

def Undisputed (st : Handlers) : HandlerEvent → Prop
  | .step k _ => ∀ h ∈ st.handlers k, h.Undisputed st.store
  | _         => True

instance {ev : HandlerEvent} : Decidable (st.Undisputed ev) :=
  match ev with
  | .step k _ => inferInstanceAs (Decidable (∀ h ∈ st.handlers k, h.Undisputed st.store))
  | .store _ | .result .. | .rejected .. | .claim .. | .reconcile .. | .abort _ | .crash =>
    .isTrue trivial

theorem agrees (h : ((handling f).restrict Undisputed).Reachable .initial st) :
    st.Holds Store.Agrees fun s h => h.Justified s := by
  have hi : Holds Store.Agrees (fun s h => h.Justified s) .initial :=
    ⟨⟨fun _ h => absurd h Table.not_mem_empty, fun _ h => absurd h Table.not_mem_empty⟩,
      by simp [initial]⟩
  apply h.invariant (I := Holds Store.Agrees fun s h => h.Justified s) (fun st ev hs he => ?_) hi
  apply hs.exec he.left (Q := fun s h => h.Undisputed s)
  case hq =>
    rintro k d rfl
    exact he.right
  case others => exact fun _ _ ha => ha.exec
  case stable => exact fun _ _ _ hj => hj.exec
  case begins => exact fun _ _ ha hb => hb.justified ha
  case takes => exact fun _ _ _ _ _ ha hj hu ht => ht.justified ha hj hu

theorem evidence_agrees (h : ((handling f).restrict Undisputed).Reachable .initial st) {a : Attempt}
    (ha : a ∈ st.store.attempts) {e : HealthEvidence}
    (he : e ∈ st.store.healthEvidence) (hi : e.attemptId = some a.id) :
    a.state.isConcluded ∧ a.classification = some e.classification := by
  have ⟨b, hb, hk, hc, hx⟩ := (agrees h).store.evidence e he a.id hi
  obtain rfl : b = a := Table.key_injOn hb ha hk
  exact ⟨hc, hx⟩

end Handlers

namespace Sample

def fingerprints : Fingerprints where
  snapshotDigest snapshot            := snapshot.parametersDigest
  inputFingerprint scope parameters := scope ++ parameters

def drawn (now : Time) : Draws :=
  ⟨now.toNat, 0, default, now⟩

def handled (events : List HandlerEvent) : Handlers :=
  (handling fingerprints).run .initial events

-- The only run is executed.
def executing : List HandlerEvent := [
    .store (.upsertAgent "agent" "host" [] 1 0 0),
    .store (.createSchedule schedule 0),
    .store (.createRun run 2 0),
    .store (.createAttempt 10 "agent" 30 20 "token" 0),
    .store (.acceptAttempt 20 "token" 30 0)
  ]

-- A handler with four transactions, the last of which is about evidence.
def classifying (k : Nat) (now : Time) : List HandlerEvent :=
  [.step k (drawn now), .step k (drawn now), .step k (drawn now), .step k (drawn now)]

def reportedTwice : List HandlerEvent :=
  executing ++ .result 0 20 "token" (result .failed) :: .result 1 20 "token" (result .failed) ::
    classifying 1 1000 ++ classifying 0 1000

-- The result arrives after the lease was revoked, but before the attempt is given up.
def revoked : List HandlerEvent :=
  executing ++ .claim 0 20 5 40000 :: .result 1 20 "token" (result .failed) ::
    classifying 1 40000 ++ .step 0 (drawn 40001) :: classifying 0 40001

end Sample

namespace Handlers

open Sample

theorem evidence_agrees_reported : ∃ a ∈ (handled reportedTwice).store.attempts,
    ∃ e ∈ (handled reportedTwice).store.healthEvidence, e.attemptId = some a.id ∧
      a.classification = some e.classification := by
  have hr : ((handling fingerprints).restrict Undisputed).Reachable .initial
      (handled reportedTwice) := ⟨reportedTwice, by decide, rfl⟩
  have ⟨a, ha, e, he, hi⟩ : ∃ a ∈ (handled reportedTwice).store.attempts,
      ∃ e ∈ (handled reportedTwice).store.healthEvidence, e.attemptId = some a.id := by decide
  exact ⟨a, ha, e, he, hi, (evidence_agrees hr ha he hi).right⟩

theorem revoked_result_disagrees : ∃ st, (handling fingerprints).Reachable .initial st ∧
    ∃ a ∈ st.store.attempts, a.state = .finished ∧ ∃ e ∈ st.store.healthEvidence,
      e.attemptId = some a.id ∧ a.classification ≠ some e.classification :=
  ⟨handled revoked, ⟨revoked, by decide, rfl⟩, by decide⟩

end Handlers

end Scheduler
