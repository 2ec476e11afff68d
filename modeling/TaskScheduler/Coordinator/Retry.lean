import TaskScheduler.Coordinator.Quarantine
import TaskScheduler.Dispatch.Cap
import TaskScheduler.Health.Replay

namespace Scheduler

namespace Life

variable {l : Life} {a b : Slot} {e : Event} {old : List Uuid}

-- Every slot goes on.
theorem Sound.exists_exec (s : Sound l) (h : l.Enabled e) (ha : a ∈ l.slots) :
    ∃ b ∈ (l.exec e).slots, b.id = a.id ∧ Moves l e a b := by
  have of_id {b : Slot} (hb : b ∈ (l.exec e).slots) (hi : b.id = a.id) :
      ∃ b ∈ (l.exec e).slots, b.id = a.id ∧ Moves l e a b := by
    refine ⟨b, hb, hi, ?_⟩
    cases s.mem_exec h hb
    case inl hn =>
      have ⟨i, he, hx⟩ := hn
      subst he hx
      exact absurd hi.symm <| h.right a ha
    case inr hm =>
      have ⟨c, hc, hm⟩ := hm
      have hk : c.id = b.id := by cases hm <;> rfl
      obtain rfl : c = a := s.unique hc ha (hk.trans hi)
      exact hm
  by_cases ho : ∃ i, e = .offer i
  case pos =>
    obtain ⟨i, rfl⟩ := ho
    exact of_id (List.mem_append_left _ ha) rfl
  case neg =>
    have ⟨i, f, hf, hs⟩ := exec_slots (l := l) fun i hi => ho ⟨i, hi⟩
    have hm : (if a.id = i then f a else a) ∈ (l.exec e).slots :=
      hs ▸ List.mem_map.mpr ⟨a, ha, rfl⟩
    apply of_id hm
    split
    case isTrue => exact (hf a).left
    case isFalse => rfl

-- What is over stays over.
theorem Moves.state_of_idle (h : Moves l e a b) (s : Sound l) (ha : a ∈ l.slots)
    (hs : a.state.isActive = false) : b.state = a.state := by
  cases h
  case same | deliver => rfl
  case release ho _ | reject ho => simp [ho, AttemptState.isActive] at hs
  case accept ho | expire ho => cases ho <;> simp_all [AttemptState.isActive]
  case finish hd hn =>
    simp [s.active_of_finish ha hd hn.right.left hn.right.right] at hs
  case finishExpired hx => simp [hx, AttemptState.isActive] at hs

-- The attempts `old` exist, and none of them is still going on.
structure Past (old : List Uuid) (l : Life) : Prop where
  known : ∀ x ∈ old, ∃ a ∈ l.slots, a.id = x
  idle  : ∀ a ∈ l.slots, a.id ∈ old → a.state.isActive = false

theorem Past.retry (s : Sound l) (h : l.Enabled .retry) :
    Past (l.slots.map (·.id)) (l.exec .retry) where
  known := fun x hx => List.mem_map.mp hx
  idle  := by
    intro a ha _
    by_contra hs
    have hr := (s.of_active ha <| by simpa using hs).right
    have hf : l.state = .failed := h
    simp [hf] at hr

theorem Past.exec (p : Past old l) (s : Sound l) (h : l.Enabled e) : Past old (l.exec e) where
  known := by
    intro x hx
    have ⟨a, ha, hi⟩ := p.known x hx
    have ⟨b, hb, hk, _⟩ := s.exists_exec h ha
    exact ⟨b, hb, hk.trans hi⟩
  idle  := by
    intro b hb ho
    cases s.mem_exec h hb
    case inl hn =>
      have ⟨i, he, hx⟩ := hn
      subst he hx
      have ⟨a, ha, hi⟩ := p.known i ho
      exact absurd hi <| h.right a ha
    case inr hm =>
      have ⟨a, ha, hm⟩ := hm
      have hk : a.id = b.id := by cases hm <;> rfl
      have hs := p.idle a ha (hk ▸ ho)
      rw [hm.state_of_idle s ha hs]
      exact hs

-- An attempt that is not among the old ones was carried through.
def Tried (old : List Uuid) (l : Life) : Prop :=
  ∃ a ∈ l.slots, a.id ∉ old ∧ a.state = .finished

theorem Tried.exec (t : Tried old l) (s : Sound l) (h : l.Enabled e) : Tried old (l.exec e) := by
  have ⟨a, ha, hn, hf⟩ := t
  have ⟨b, hb, hi, hm⟩ := s.exists_exec h ha
  exact ⟨b, hb, hi ▸ hn, (hm.state_of_idle s ha (hf ▸ rfl)).trans hf⟩

-- A result fails the run only together with the attempt that it belongs to.
theorem Past.conclude (p : Past old l) {ok : Bool} (ha : a ∈ l.slots)
    (hs : a.state.isActive) (hf : (l.conclude a.id ok).state = .failed) :
    Tried old (l.conclude a.id ok) := by
  have hc : l.state ≠ .cancelled := by
    intro hc
    simp [Life.conclude, hc, setState, modify] at hf
  refine ⟨{ a with state := .finished }, ?_, ?_, rfl⟩
  case refine_1 =>
    simp only [Life.conclude, hc, if_false]
    exact List.mem_map.mpr ⟨a, ha, if_pos rfl⟩
  case refine_2 =>
    intro ho
    simp [p.idle a ha ho] at hs

theorem failed_exec (p : Past old l) (s : Sound l) (h : l.Enabled e) (hp : e ≠ .poison)
    (hn : l.state = .failed → Tried old l) (hf : (l.exec e).state = .failed) :
    Tried old (l.exec e) := by
  by_cases hs : l.state = .failed
  case pos => exact (hn hs).exec s h
  case neg =>
    cases e
    case finish id ok =>
      have ⟨a, ha, hi, hd, _, h₁, h₂⟩ := h
      subst hi
      exact p.conclude ha (s.active_of_finish ha hd h₁ h₂) hf
    case finishExpired id ok =>
      have ⟨a, ha, hi, hx⟩ := h
      subst hi
      exact p.conclude ha (hx ▸ rfl) hf
    case poison => contradiction
    case release | reject =>
      simp only [exec, requeue] at hf
      split at hf
      case isTrue => contradiction
      case isFalse => exact absurd hf hs
    all_goals first | exact absurd hf hs | contradiction

end Life

namespace System

variable {σ : System} {act : Action} {acts : List Action} {r : Uuid} {old : List Uuid} {run : Run}

-- An attempt of the run that is not among the old ones was carried through.
def Tried (σ : System) (r : Uuid) (old : List Uuid) : Prop :=
  ∃ a ∈ σ.store.attempts, a.runId = r ∧ a.id ∉ old ∧ a.state = .finished

-- If the run has failed, then not before such an attempt.
def Heeds (r : Uuid) (old : List Uuid) (σ : System) : Prop :=
  ∀ run ∈ σ.store.runs, run.id = r → run.state = .failed → σ.Tried r old

-- The input of the run is not confirmed to be poisoned while the run waits for such an attempt.
def Spares (r : Uuid) (old : List Uuid) (σ : System) : Action → Prop
  | .store op => σ.store.poisonedBy op r →
      (∃ run ∈ σ.store.runs, run.id = r ∧ run.state = .queued) → σ.Tried r old
  | .deliver .. => True

instance : Decidable (σ.Tried r old) :=
  inferInstanceAs <| Decidable <|
    ∃ a ∈ σ.store.attempts, a.runId = r ∧ a.id ∉ old ∧ a.state = .finished

instance : Decidable (σ.Spares r old act) :=
  match act with
  | .store op => inferInstanceAs <| Decidable <| σ.store.poisonedBy op r →
      (∃ run ∈ σ.store.runs, run.id = r ∧ run.state = .queued) → σ.Tried r old
  | .deliver .. => .isTrue trivial

theorem tried_lifeOf : (σ.lifeOf run).Tried old ↔ σ.Tried run.id old := by
  constructor
  case mp =>
    intro ⟨x, hx, hn, hf⟩
    have ⟨a, ha, he⟩ := List.mem_map.mp hx
    have ⟨ha, hr⟩ := Table.mem_select.mp ha
    subst he
    exact ⟨a, ha, of_decide_eq_true hr, hn, hf⟩
  case mpr =>
    intro ⟨a, ha, hr, hn, hf⟩
    have hm : a.slot σ.delivery ∈ σ.store.core.slots σ.delivery a.runId := Core.mem_slots ha
    rw [hr] at hm
    exact ⟨_, hm, hn, hf⟩

theorem heeds_iff (hr : run ∈ σ.store.runs) :
    σ.Heeds run.id old ↔ (run.state = .failed → (σ.lifeOf run).Tried old) := by
  rw [tried_lifeOf]
  constructor
  case mp => exact fun h => h run hr rfl
  case mpr =>
    intro h run' hr' hi
    obtain rfl : run' = run := Table.key_injOn hr' hr hi
    exact h

-- What confirmed evidence does to a run.
theorem exec_evidence (hr : run ∈ σ.store.runs) (e : NewHealthEvidence) (nodes : Nat) (id : Uuid)
    (order : HashOrder) (now : Time) :
    let op := Op.recordHealthEvidence e nodes id order now
    let σ' := σ.exec (.store op)
    let poisoned := run.state = .queued && σ.store.poisonedBy op run.id
    σ'.store.attempts = σ.store.attempts ∧
      (if poisoned then { run with state := .failed } else run) ∈ σ'.store.runs := by
  intro op σ' poisoned
  have hc : (σ.store.exec op).core = σ.store.core.poison (σ.store.poisonedBy op) :=
    σ.store.recordHealthEvidence_poison
  refine ⟨congrArg Core.attempts hc, ?_⟩
  have hx : σ'.store.runs = _ := congrArg Core.runs hc
  rw [← Table.mem_rows, hx]
  exact List.mem_map.mpr ⟨run, hr, rfl⟩

theorem exists_run (hr : run ∈ σ.store.runs) (act : Action) :
    ∃ run' ∈ (σ.exec act).store.runs, run'.id = run.id := by
  cases act
  case deliver => exact ⟨run, hr, rfl⟩
  case store op =>
    have ⟨run', hr', he⟩ := (σ.store.exec_step op).extends_refs.exists_right hr
    exact ⟨run', hr', congrArg Prod.fst he⟩

-- The run exists, and its old attempts are over.
structure Follows (r : Uuid) (old : List Uuid) (σ : System) : Prop where
  reachable : σ.Reachable
  life      : ∃ run ∈ σ.store.runs, run.id = r ∧ (σ.lifeOf run).Past old

theorem Follows.exec (h : σ.Follows r old) (ha : σ.Enabled act) : (σ.exec act).Follows r old := by
  have ⟨run, hr, hi, hp⟩ := h.life
  have ⟨run', hr', hi'⟩ := exists_run hr act
  refine ⟨h.reachable.exec ha, run', hr', hi'.trans hi, ?_⟩
  cases h.reachable.exec_cases ha hr hr' hi'
  case inl he => exact he ▸ hp
  case inr he =>
    have ⟨e, _, he, hx⟩ := he
    exact hx ▸ hp.exec (h.reachable.lawful_of_mem hr).sound he

theorem Follows.heeds_exec_iff (h : σ.Follows r old) (ha : σ.Enabled act) (hh : σ.Heeds r old) :
    (σ.exec act).Heeds r old ↔ σ.Spares r old act := by
  have ⟨run, hr, hi, hp⟩ := h.life
  have ⟨run', hr', hi'⟩ := exists_run hr act
  have hs := (h.reachable.lawful_of_mem hr).sound
  subst hi
  constructor
  case mp =>
    intro hx
    cases act
    case deliver => trivial
    case store op =>
      intro hb hq
      cases op <;> try contradiction
      case recordHealthEvidence e nodes id order now =>
        have ⟨hat, hm⟩ := exec_evidence hr e nodes id order now
        have ⟨run₁, hr₁, hi₁, hq₁⟩ := hq
        obtain rfl : run₁ = run := Table.key_injOn hr₁ hr hi₁
        rw [if_pos (by simp [hq₁, hb])] at hm
        have ⟨a, ha, ht⟩ := hx _ hm rfl rfl
        exact ⟨a, hat ▸ ha, ht⟩
  case mpr =>
    intro hx
    rw [← hi', heeds_iff hr']
    intro hf
    have hh := (heeds_iff hr).mp hh
    cases h.reachable.exec_cases ha hr hr' hi'
    case inl he =>
      rw [he]
      exact hh <| (congrArg Life.state he).symm.trans hf
    case inr he =>
      have ⟨e, hm, hn, hl⟩ := he
      by_cases hp' : e = .poison
      case neg =>
        rw [hl]
        exact Life.failed_exec hp hs hn hp' hh ((congrArg Life.state hl).symm.trans hf)
      case pos =>
        subst hp'
        cases hm
        case poison e nodes id order now =>
          have ⟨hat, hm⟩ := exec_evidence hr e nodes id order now
          have hq : run.state = .queued := hn
          cases hb : σ.store.poisonedBy (.recordHealthEvidence e nodes id order now) run.id
          case false =>
            rw [hb, Bool.and_false] at hm
            obtain rfl : run' = run := Table.key_injOn hr' hm hi'
            exact nomatch hq.symm.trans hf
          case true =>
            have ⟨a, ha, ht⟩ := hx hb ⟨run, hr, rfl, hq⟩
            rw [tried_lifeOf, hi']
            exact ⟨a, hat ▸ ha, ht⟩

-- The run waits again, and whatever was done for it before is over.
theorem Reachable.retried (h : σ.Reachable) {now : Time} {s' : Store}
    (hr : σ.store.retryRun r now = .ok ((), s')) :
    let σ' := σ.exec (.store (.retryRun r now))
    σ'.Follows r ((σ.store.attemptsOf r).map (·.id)) ∧
      ∀ run ∈ σ'.store.runs, run.id = r → run.state = .queued := by
  intro σ'
  have hx : σ.store.core.Step (.retryRun r now) [.retried r] σ'.store.core := by
    cases σ.store.retryRun_cases r now
    case inl he =>
      obtain ⟨_, he⟩ := he
      cases hr.symm.trans he
    case inr he =>
      obtain ⟨s₁, he, hx⟩ := he
      have hs : σ'.store = s₁ := by simp [σ', exec, Store.exec, he]
      exact hs ▸ hx
  obtain ⟨run, hm, hf, hq⟩ : ∃ run, σ.store.core.runs.get? r = some run ∧ run.state = .failed ∧
      ∀ run' ∈ σ'.store.core.runs, run'.id = r → run'.state = .queued := by
    generalize σ'.store.core = c at hx
    cases hx
    case retryRun run hf hm =>
      refine ⟨run, hm, hf, fun run' hr' hi => ?_⟩
      rw [Core.sync_runs] at hr'
      obtain ⟨x, hx, he⟩ := List.mem_map.mp hr'
      split at he
      case isTrue => exact he ▸ rfl
      case isFalse hn =>
        subst he
        obtain rfl : x = run := Table.key_injOn hx (Table.mem_of_get? hm) <|
          hi.trans (Table.key_of_get? hm).symm
        simp [hi, hf] at hn
  obtain rfl : run.id = r := Table.key_of_get? hm
  have hm : run ∈ σ.store.runs := Table.mem_of_get? hm
  obtain ⟨run', hr', hi'⟩ := exists_run hm (.store (.retryRun run.id now))
  have ha : σ.Enabled (.store (.retryRun run.id now)) := fun _ h => by cases h
  have hc : coordinator.Enabled σ (.store (.retryRun run.id now)) := ha
  refine ⟨⟨Machine.Reachable.exec h hc, run', hr', hi', ?_⟩, hq⟩
  cases h.exec_cases ha hm hr' hi'
  case inl he =>
    have hs : run'.state = run.state := congrArg Life.state he
    rw [hf, hq run' hr' hi'] at hs
    cases hs
  case inr he =>
    obtain ⟨e, hm', hn, hl⟩ := he
    cases hm'
    have ho : (σ.lifeOf run).slots.map (·.id) = (σ.store.attemptsOf run.id).map (·.id) :=
      List.map_map
    rw [hl, ← ho]
    exact .retry (h.lawful_of_mem hm).sound hn

theorem retry_heeded_iff (h : σ.Reachable) {now : Time} {s' : Store}
    (hr : σ.store.retryRun r now = .ok ((), s'))
    (v : coordinator.Valid (σ.exec (.store (.retryRun r now))) acts) :
    let old := (σ.store.attemptsOf r).map (·.id)
    coordinator.Along (Heeds r old) (σ.exec (.store (.retryRun r now))) acts ↔
      (coordinator.restrict (Spares r old)).Valid (σ.exec (.store (.retryRun r now))) acts := by
  intro old
  have ⟨hf, hq⟩ := h.retried hr
  apply v.along_iff (I := Follows r old)
  case step => exact fun _ _ h ha => h.exec ha
  case h => exact fun _ _ h ha hh => h.heeds_exec_iff ha hh
  case hi => exact hf
  case hq => exact fun run hm hi hs => nomatch (hq run hm hi).symm.trans hs

end System

namespace Sample

-- The retried run is executed once more, and fails.
def failedAgain : List Action :=
  attempted 22 "third" .failed 2000 ++
    [.store (.recordHealthEvidence (failure 22 "third" 2000) 2 32 default 2000)]

end Sample

namespace System

open Sample

theorem retry_heeded_iff_executed : coordinator.Along (Heeds 201 [20, 21])
    ((after poisonedChild).exec (.store (.retryRun 201 2000))) failedAgain := by
  have hr : (after poisonedChild).Reachable := reachable_after <| by decide
  have hv : coordinator.Valid ((after poisonedChild).exec (.store (.retryRun 201 2000)))
      failedAgain := by decide
  have hs : (coordinator.restrict (Spares 201 [20, 21])).Valid
      ((after poisonedChild).exec (.store (.retryRun 201 2000))) failedAgain := by decide
  exact (retry_heeded_iff hr rfl hv).mpr hs

-- The result that confirmed the input arrives a second time.
theorem retry_undone_by_replay : ∃ σ : System, σ.Reachable ∧
    (∃ s', σ.store.retryRun 201 2000 = .ok ((), s')) ∧
    let σ' := coordinator.run σ [.store (.retryRun 201 2000), .store replayed]
    (∃ run ∈ σ'.store.runs, run.id = 201 ∧ run.state = .failed) ∧
      σ'.store.attempts.rows = σ.store.attempts.rows :=
  ⟨after poisonedChild, reachable_after <| by decide, ⟨_, rfl⟩, by decide, rfl⟩

end System

end Scheduler
