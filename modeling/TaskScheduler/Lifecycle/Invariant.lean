import TaskScheduler.Lifecycle.Life

namespace Scheduler.Life

variable {l : Life} {a b : Slot} {id : Uuid} {e : Event} {st : AttemptState} {ok : Bool}

@[simp]
theorem setState_slots : (l.setState id st).slots = Keyed.modify l.slots id ({ · with state := st }) :=
  rfl

theorem requeue_eq (l : Life) : l.requeue = { l with state := l.requeue.state } := by
  unfold requeue
  split <;> rfl

@[simp]
theorem requeue_slots : l.requeue.slots = l.slots := by
  rw [requeue_eq]

theorem conclusion_not_active : l.conclusion.isActive = false := by
  unfold conclusion
  split <;> rfl

theorem conclusion_ne_offerFailed : l.conclusion ≠ .offerFailed := by
  unfold conclusion
  split <;> nofun

theorem conclusion_not_leased : l.conclusion ≠ .offered ∧ l.conclusion ≠ .accepted := by
  unfold conclusion
  split <;> simp

theorem conclude_eq (l : Life) (id : Uuid) (ok : Bool) :
    l.conclude id ok = { l.setState id l.conclusion with state := (l.conclude id ok).state } := by
  unfold conclude conclusion
  split <;> rfl

@[simp]
theorem conclude_slots : (l.conclude id ok).slots = (l.setState id l.conclusion).slots := by
  rw [conclude_eq]

-- Apart from adding an offer, every event maps over the slots, keeping identifiers and numbers.
theorem exec_slots (h : ∀ i, e ≠ .offer i) :
    ∃ id f, (∀ a : Slot, (f a).id = a.id ∧ (f a).number = a.number) ∧
      (l.exec e).slots = Keyed.modify l.slots id f := by
  cases e
  case offer i => exact absurd rfl <| h i
  case deliver i d => exact ⟨i, ({ · with delivery := d }), by simp, rfl⟩
  case release i => exact ⟨i, ({ · with state := .offerFailed }), by simp, requeue_slots⟩
  case reject i => exact ⟨i, ({ · with state := .finished }), by simp, requeue_slots⟩
  case accept i => exact ⟨i, ({ · with state := .accepted, accepted := true }), by simp, rfl⟩
  case expire i => exact ⟨i, ({ · with state := .expiring }), by simp, rfl⟩
  case finish i _ => exact ⟨i, ({ · with state := l.conclusion }), by simp, conclude_slots⟩
  case finishExpired i _ => exact ⟨i, ({ · with state := l.conclusion }), by simp, conclude_slots⟩
  all_goals
    have h : Keyed.modify l.slots 0 (fun a => a) = l.slots := by simp [Keyed.modify]
    exact ⟨0, fun a => a, by simp, h.symm⟩

-- The number of active attempts that a run state leaves room for.
def Fits : RunState → Nat → Prop
  | .running, n                                      => n = 1
  | .cancelled, n                                    => n ≤ 1
  | .queued, n | .succeeded, n | .failed, n          => n = 0

theorem Fits.zero {st : RunState} (h : st ≠ .running) : Fits st 0 := by
  cases st
  case running => contradiction
  all_goals simp [Fits]

theorem Fits.le_one {st : RunState} {n : Nat} (h : Fits st n) : n ≤ 1 := by
  cases st <;> simp only [Fits] at h <;> omega

theorem requeue_ne_running : l.requeue.state ≠ .running := by
  unfold requeue
  split
  case isTrue => nofun
  case isFalse h => exact h

theorem conclude_ne_running (h : l.state = .running ∨ l.state = .cancelled) :
    (l.conclude id ok).state ≠ .running := by
  unfold conclude next
  rcases h with h | h <;> simp only [h, reduceCtorEq, if_true, if_false]
  case inl => repeat (first | split | nofun)
  case inr => exact fun hr => nomatch h.symm.trans hr

structure Sound (l : Life) : Prop where
  nodup    : (l.slots.map Slot.id).Nodup
  active   : Fits l.state l.activeCount
  released : ∀ a ∈ l.slots, a.state = .offerFailed → a.delivery = .failed

namespace Sound

theorem initial {n} : Sound (.initial n) where
  nodup    := .nil
  active   := rfl
  released := nofun

theorem unique (s : Sound l) (ha : a ∈ l.slots) (hb : b ∈ l.slots) (h : a.id = b.id) : a = b :=
  List.inj_on_of_nodup_map s.nodup ha hb h

-- An active attempt is the only one, and its run is running or was cancelled meanwhile.
theorem of_active (s : Sound l) (ha : a ∈ l.slots) (hs : a.state.isActive) :
    l.activeCount = 1 ∧ (l.state = .running ∨ l.state = .cancelled) := by
  have hp : 0 < l.activeCount := List.countP_pos_iff.mpr ⟨a, ha, hs⟩
  have h := s.active
  have h₁ := h.le_one
  refine ⟨by omega, ?_⟩
  cases hr : l.state <;> simp only [hr, Fits] at h ⊢ <;> first | trivial | omega

theorem active_unique (s : Sound l) (ha : a ∈ l.slots) (hb : b ∈ l.slots) (ha' : a.state.isActive)
    (hb' : b.state.isActive) : a = b := by
  have h : (l.slots.filter (·.state.isActive)).length ≤ 1 :=
    List.countP_eq_length_filter ▸ s.active.le_one
  have ha : a ∈ l.slots.filter (·.state.isActive) := List.mem_filter.mpr ⟨ha, ha'⟩
  have hb : b ∈ l.slots.filter (·.state.isActive) := List.mem_filter.mpr ⟨hb, hb'⟩
  match hf : l.slots.filter (·.state.isActive) with
  | []         => simp [hf] at ha
  | [c]        => simp_all
  | _ :: _ :: _ => simp [hf] at h

theorem activeCount_setState (s : Sound l) (ha : a ∈ l.slots) :
    (l.setState a.id st).activeCount + a.state.isActive.toNat = l.activeCount + st.isActive.toNat :=
  Keyed.countP_modify s.nodup ha rfl _

-- When its only active attempt is over, a run has none left.
theorem activeCount_close (s : Sound l) (ha : a ∈ l.slots) (hs : a.state.isActive)
    (hst : st.isActive = false) : (l.setState a.id st).activeCount = 0 := by
  have h : (l.setState a.id st).activeCount + _ = _ := s.activeCount_setState ha
  have h₁ := (s.of_active ha hs).left
  simp only [hs, hst, Bool.toNat_true, Bool.toNat_false] at h
  omega

theorem conclude_active (s : Sound l) (ha : a ∈ l.slots) (hs : a.state.isActive) :
    Fits (l.conclude a.id ok).state (l.conclude a.id ok).activeCount := by
  have hn : (l.conclude a.id ok).state ≠ .running := conclude_ne_running (s.of_active ha hs).right
  have h₀ : (l.conclude a.id ok).activeCount = 0 := by
    rw [activeCount, conclude_slots]
    exact s.activeCount_close ha hs conclusion_not_active
  exact h₀ ▸ .zero hn

theorem requeue_active (s : Sound l) (ha : a ∈ l.slots) (hs : a.state.isActive)
    (hst : st.isActive = false) :
    Fits (l.setState a.id st).requeue.state (l.setState a.id st).requeue.activeCount := by
  have h₀ : (l.setState a.id st).requeue.activeCount = 0 := by
    rw [activeCount, requeue_slots]
    exact s.activeCount_close ha hs hst
  exact h₀ ▸ .zero requeue_ne_running

-- A slot that stays as active as it was leaves the count alone.
theorem modify_active (s : Sound l) (ha : a ∈ l.slots) {f : Slot → Slot}
    (hf : (f a).state.isActive = a.state.isActive) : Fits l.state (l.modify a.id f).activeCount := by
  have h : (l.modify a.id f).activeCount + _ = _ := Keyed.countP_modify s.nodup ha rfl _
  rw [hf, Nat.add_right_cancel_iff] at h
  exact h ▸ s.active

-- A result is only ever applied to an active attempt: an offer that was released never reached
-- its agent.
theorem active_of_finish (s : Sound l) (ha : a ∈ l.slots) (hd : a.delivery = .sent)
    (h₁ : a.state ≠ .finished) (h₂ : a.state ≠ .lateResult) : a.state.isActive := by
  cases hs : a.state
  case offerFailed => simp [s.released a ha hs] at hd
  case finished => contradiction
  case lateResult => contradiction
  all_goals rfl

theorem exec_nodup (s : Sound l) (h : l.Enabled e) : ((l.exec e).slots.map Slot.id).Nodup := by
  by_cases ho : ∃ i, e = .offer i
  case pos =>
    obtain ⟨i, rfl⟩ := ho
    have hn : i ∉ l.slots.map Slot.id := by
      simpa using fun a ha => h.right a ha
    simpa [exec, newSlot, List.nodup_append, s.nodup] using hn
  case neg =>
    obtain ⟨i, f, hf, hs⟩ := exec_slots (l := l) fun i hi => ho ⟨i, hi⟩
    rw [hs, Keyed.map_modify fun a => (hf a).left]
    exact s.nodup

theorem exec_active (s : Sound l) (h : l.Enabled e) : Fits (l.exec e).state (l.exec e).activeCount := by
  cases e
  case offer i =>
    have h₀ : l.activeCount = 0 := by simpa [h.left, Fits] using s.active
    simpa [exec, newSlot, Fits, activeCount, AttemptState.isActive] using h₀
  case deliver i d =>
    obtain ⟨a, ha, rfl, -⟩ := h
    exact s.modify_active ha rfl
  case release i =>
    obtain ⟨a, ha, rfl, hs, -⟩ := h
    exact s.requeue_active ha (by simp [hs, AttemptState.isActive]) rfl
  case reject i =>
    obtain ⟨a, ha, rfl, hs⟩ := h
    exact s.requeue_active ha (by simp [hs, AttemptState.isActive]) rfl
  case accept i =>
    obtain ⟨a, ha, rfl, hs⟩ := h
    exact s.modify_active ha <| by rcases hs with hs | hs <;> simp [hs, AttemptState.isActive]
  case expire i =>
    obtain ⟨a, ha, rfl, hs⟩ := h
    exact s.modify_active ha <| by rcases hs with hs | hs <;> simp [hs, AttemptState.isActive]
  case finish i ok =>
    obtain ⟨a, ha, rfl, hd, -, h₁, h₂⟩ := h
    exact s.conclude_active ha <| s.active_of_finish ha hd h₁ h₂
  case finishExpired i ok =>
    obtain ⟨a, ha, rfl, hs⟩ := h
    exact s.conclude_active ha <| by simp [hs, AttemptState.isActive]
  case cancel => exact s.active.le_one
  case retry =>
    have hf : Fits .failed l.activeCount := h ▸ s.active
    exact hf
  case poison =>
    have hq : Fits .queued l.activeCount := h ▸ s.active
    exact hq

-- A slot after an event is the new offer, or comes from a slot before it.
theorem mem_exec (s : Sound l) (h : l.Enabled e) (hb : b ∈ (l.exec e).slots) :
    (∃ i, e = .offer i ∧ b = l.newSlot i) ∨ ∃ a ∈ l.slots, Moves l e a b := by
  have of_modify {i : Uuid} {f : Slot → Slot} {p : Slot → Prop} (h : l.Has i p)
      (hm : ∀ a, a.id = i → p a → Moves l e a (f a)) (hb : b ∈ Keyed.modify l.slots i f) :
      ∃ a ∈ l.slots, Moves l e a b := by
    obtain ⟨c, hc, rfl, hp⟩ := h
    obtain ⟨a, ha, rfl⟩ := List.mem_map.mp hb
    refine ⟨a, ha, ?_⟩
    split
    case isTrue hk =>
      obtain rfl : a = c := s.unique ha hc hk
      exact hm a rfl hp
    case isFalse => exact .same
  cases e
  case offer i =>
    rcases List.mem_append.mp hb with hb | hb
    case inl => exact .inr ⟨b, hb, .same⟩
    case inr => exact .inl ⟨i, rfl, List.mem_singleton.mp hb⟩
  case deliver => exact .inr <| of_modify h (fun a ha hp => ha ▸ .deliver hp) hb
  case release =>
    rw [exec, requeue_slots] at hb
    exact .inr <| of_modify h (fun a ha hp => ha ▸ .release hp.left hp.right) hb
  case reject =>
    rw [exec, requeue_slots] at hb
    exact .inr <| of_modify h (fun a ha hp => ha ▸ .reject hp) hb
  case accept => exact .inr <| of_modify h (fun a ha hp => ha ▸ .accept hp) hb
  case expire => exact .inr <| of_modify h (fun a ha hp => ha ▸ .expire hp) hb
  case finish =>
    simp only [exec, conclude_slots] at hb
    exact .inr <| of_modify h (fun a ha hp => ha ▸ .finish hp.left hp.right) hb
  case finishExpired =>
    rw [exec, conclude_slots] at hb
    exact .inr <| of_modify h (fun a ha hp => ha ▸ .finishExpired hp) hb
  all_goals exact .inr ⟨b, hb, .same⟩

theorem exec_released (s : Sound l) (h : l.Enabled e) :
    ∀ a ∈ (l.exec e).slots, a.state = .offerFailed → a.delivery = .failed := by
  intro b hb hs
  obtain ⟨i, -, rfl⟩ | ⟨a, ha, hm⟩ := s.mem_exec h hb
  case inl => contradiction
  case inr =>
    have hr := s.released a ha
    cases hm
    case same => exact hr hs
    case deliver hp => simp [hp] at hr; contradiction
    case release hd => exact hd
    case finish | finishExpired => exact absurd hs conclusion_ne_offerFailed
    all_goals contradiction

theorem exec (s : Sound l) (h : l.Enabled e) : Sound (l.exec e) where
  nodup    := s.exec_nodup h
  active   := s.exec_active h
  released := s.exec_released h

end Sound

-- Only a retry leads a terminal run out of its state, and only a failed one.
theorem terminal_left_by_retry (s : Sound l) (h : l.Enabled e) (ht : l.state.isTerminal)
    (hs : (l.exec e).state ≠ l.state) : e = .retry ∧ l.state = .failed := by
  have closed {a} (ha : a ∈ l.slots) (hc : a.state.isActive) : l.state = .cancelled := by
    rcases (s.of_active ha hc).right with hr | hc
    case inl => simp [hr, RunState.isTerminal] at ht
    case inr => exact hc
  cases e
  case offer i => simp [h.left, RunState.isTerminal] at ht
  case deliver i d => contradiction
  case accept i => contradiction
  case expire i => contradiction
  case release i =>
    have hr : l.state ≠ .running := fun hr => by simp [hr, RunState.isTerminal] at ht
    simp [exec, requeue, setState, modify, hr] at hs
  case reject i =>
    have hr : l.state ≠ .running := fun hr => by simp [hr, RunState.isTerminal] at ht
    simp [exec, requeue, setState, modify, hr] at hs
  case finish i ok =>
    obtain ⟨a, ha, rfl, hd, -, h₁, h₂⟩ := h
    have hc := closed ha <| s.active_of_finish ha hd h₁ h₂
    simp [exec, conclude, setState, modify, hc] at hs
  case finishExpired i ok =>
    obtain ⟨a, ha, rfl, ha'⟩ := h
    have hc := closed ha <| by simp [ha', AttemptState.isActive]
    simp [exec, conclude, setState, modify, hc] at hs
  case cancel => rcases h with h | h <;> simp [h, RunState.isTerminal] at ht
  case retry => exact ⟨rfl, h⟩
  case poison =>
    have hq : l.state = .queued := h
    simp [hq, RunState.isTerminal] at ht

end Scheduler.Life
