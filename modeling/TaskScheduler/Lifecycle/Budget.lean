import TaskScheduler.Lifecycle.Invariant

namespace Scheduler.Life

variable {l : Life} {a b : Slot} {id : Uuid} {e : Event}

-- The attempts of a run are numbered 1, 2, 3, … in the order in which they were offered.
def Numbered (l : Life) : Prop :=
  l.slots.map Slot.number = List.range' 1 l.slots.length

theorem foldl_max_range' (n : Nat) : (List.range' 1 n).foldl max 0 = n := by
  induction n
  case zero => rfl
  case succ n hi =>
    rw [List.range'_concat, List.foldl_append, hi]
    simp [Nat.add_comm]

theorem Numbered.exec (h : Numbered l) : Numbered (l.exec e) := by
  by_cases ho : ∃ i, e = .offer i
  case pos =>
    obtain ⟨i, rfl⟩ := ho
    have hn : l.nextNumber = l.slots.length + 1 := by rw [nextNumber, h, foldl_max_range']
    simp only [Numbered, Life.exec, newSlot, List.map_append, List.length_append, List.map_cons,
      List.map_nil, List.length_singleton, hn]
    rw [h, List.range'_concat]
    simp [Nat.add_comm]
  case neg =>
    obtain ⟨i, f, hf, hs⟩ := exec_slots (l := l) fun i hi => ho ⟨i, hi⟩
    rw [Numbered, hs, Keyed.map_modify fun a => (hf a).right, Keyed.length_modify]
    exact h

-- How the counters of a run account for its accepted attempts.
structure Counted (l : Life) : Prop where
  count    : l.count + l.offset = l.acceptedCount
  since    : l.accepted.length = l.count
  nodup    : l.accepted.Nodup
  recorded : ∀ i ∈ l.accepted, l.Has i (·.accepted)
  offered  : ∀ a ∈ l.slots, a.state = .offered → a.accepted = false
  live     : ∀ a ∈ l.slots, a.state = .accepted → a.accepted ∧ a.id ∈ l.accepted

namespace Counted

theorem initial {n} : Counted (.initial n) where
  count    := rfl
  since    := rfl
  nodup    := .nil
  recorded := nofun
  offered  := nofun
  live     := nofun

-- An event that leaves the counters and the acceptance marks alone.
theorem congr (c : Counted l) {l' : Life} {f : Slot → Slot} (hs : l'.slots = Keyed.modify l.slots id f)
    (hid : ∀ a, (f a).id = a.id) (hacc : ∀ a, (f a).accepted = a.accepted)
    (ho : ∀ a ∈ l.slots, a.id = id → (f a).state = .offered → a.state = .offered)
    (ha : ∀ a ∈ l.slots, a.id = id → (f a).state = .accepted → a.state = .accepted)
    (hc : l'.count = l.count) (hof : l'.offset = l.offset) (hl : l'.accepted = l.accepted) :
    Counted l' where
  count := by
    rw [hc, hof, acceptedCount, hs, Keyed.countP_modify_of_eq hacc]
    exact c.count
  since := by rw [hl, hc, c.since]
  nodup := hl ▸ c.nodup
  recorded i hi := by
    have ⟨a, hm, hk, h⟩ := c.recorded i (hl ▸ hi)
    refine ⟨_, hs ▸ Keyed.mem_modify.mpr ⟨a, hm, rfl⟩, ?_⟩
    split <;> simp [hid, hacc, hk, h]
  offered := by
    rw [hs, Keyed.forall_mem_modify]
    intro a hm
    split
    case isTrue hk => exact fun h => hacc a ▸ c.offered a hm (ho a hm hk h)
    case isFalse => exact c.offered a hm
  live := by
    rw [hs, Keyed.forall_mem_modify, hl]
    intro a hm
    split
    case isTrue hk => exact fun h => by simpa [hid, hacc] using c.live a hm (ha a hm hk h)
    case isFalse => exact c.live a hm

-- The mark of an attempt and its entry among the accepted ones appear together.
theorem mem_accepted_iff (s : Sound l) (c : Counted l) (ha : a ∈ l.slots)
    (hs : a.state = .offered ∨ a.state = .accepted) : a.id ∈ l.accepted ↔ a.accepted := by
  rcases hs with hs | hs
  case inl =>
    have hf := c.offered a ha hs
    simp only [hf, Bool.false_eq_true, iff_false]
    intro hm
    have ⟨b, hb, hk, h⟩ := c.recorded _ hm
    simp [s.unique hb ha hk, hf] at h
  case inr => simp [c.live a ha hs]

-- An acceptance raises the count by one unless it repeats an earlier one.
theorem acceptedCount_accept (s : Sound l) (ha : a ∈ l.slots) :
    (l.exec (.accept a.id)).acceptedCount + a.accepted.toNat = l.acceptedCount + 1 :=
  Keyed.countP_modify s.nodup ha rfl (·.accepted)

theorem accept (s : Sound l) (c : Counted l) (h : l.Enabled (.accept id)) :
    Counted (l.exec (.accept id)) := by
  obtain ⟨a, ha, rfl, hs⟩ := h
  let f : Slot → Slot := ({ · with state := .accepted, accepted := true })
  have hcount : (l.modify a.id f).acceptedCount + _ = _ := acceptedCount_accept s ha
  have hlength : (l.accepted.insert a.id).length + a.accepted.toNat = l.accepted.length + 1 := by
    have hm := mem_accepted_iff s c ha hs
    cases hacc : a.accepted <;> simp only [hacc, Bool.false_eq_true, iff_false, iff_true] at hm
    case false => simp [List.length_insert_of_not_mem hm]
    case true => simp [List.length_insert_of_mem hm]
  have hle : l.offset ≤ l.acceptedCount := Nat.le.intro (Nat.add_comm _ _ ▸ c.count)
  have hacc : a.accepted.toNat ≤ 1 := Bool.toNat_le _
  have ⟨hc, hs'⟩ := And.intro c.count c.since
  constructor
  case count =>
    show (l.modify a.id f).acceptedCount - l.offset + l.offset = (l.modify a.id f).acceptedCount
    omega
  case since =>
    show (l.accepted.insert a.id).length = (l.modify a.id f).acceptedCount - l.offset
    omega
  case nodup => exact c.nodup.insert
  case recorded =>
    intro i hi
    rcases List.mem_insert_iff.mp hi with rfl | hi
    case inl => exact ⟨f a, Keyed.mem_modify.mpr ⟨a, ha, by simp [Keyed.key, f]⟩, rfl, rfl⟩
    case inr =>
      have ⟨b, hb, hk, h⟩ := c.recorded i hi
      refine ⟨_, Keyed.mem_modify.mpr ⟨b, hb, rfl⟩, ?_⟩
      split <;> simp [hk, h]
  case offered =>
    refine Keyed.forall_mem_modify.mpr fun b hb => ?_
    split
    case isTrue => nofun
    case isFalse => exact c.offered b hb
  case live =>
    refine Keyed.forall_mem_modify.mpr fun b hb => ?_
    split
    case isTrue hk => exact fun _ => ⟨rfl, List.mem_insert_iff.mpr <| .inl hk⟩
    case isFalse =>
      exact fun h => ⟨(c.live b hb h).left, List.mem_insert_of_mem (c.live b hb h).right⟩

theorem offer (c : Counted l) : Counted (l.exec (.offer id)) := by
  constructor
  case count => simpa [Life.exec, newSlot, acceptedCount] using c.count
  case since => exact c.since
  case nodup => exact c.nodup
  case recorded =>
    intro i hi
    obtain ⟨a, ha, h⟩ := c.recorded i hi
    exact ⟨a, List.mem_append_left _ ha, h⟩
  case offered =>
    intro a ha
    rcases List.mem_append.mp ha with ha | ha
    case inl => exact c.offered a ha
    case inr => simp [List.mem_singleton.mp ha, newSlot]
  case live =>
    intro a ha
    rcases List.mem_append.mp ha with ha | ha
    case inl => exact c.live a ha
    case inr => simp [List.mem_singleton.mp ha, newSlot]

-- An attempt that is no longer leased takes nothing from the counters.
theorem setState (c : Counted l) (id : Uuid) {st : AttemptState}
    (h : st ≠ .offered ∧ st ≠ .accepted) : Counted (l.setState id st) :=
  c.congr rfl (fun _ => rfl) (fun _ => rfl) (fun _ _ _ hs => absurd hs h.left)
    (fun _ _ _ hs => absurd hs h.right) rfl rfl rfl

-- The counters do not depend on the state of the run, nor on what was executed.
theorem withState (c : Counted l) (state : RunState) (executed : List Uuid) :
    Counted { l with state, executed } where
  count    := c.count
  since    := c.since
  nodup    := c.nodup
  recorded := c.recorded
  offered  := c.offered
  live     := c.live

theorem retry (s : Sound l) (c : Counted l) (h : l.Enabled .retry) : Counted (l.exec .retry) where
  count    := Nat.zero_add _
  since    := rfl
  nodup    := .nil
  recorded := nofun
  offered  := c.offered
  live a ha hs := by
    -- A failed run has no active attempt.
    have hr := (s.of_active ha <| by simp [hs, AttemptState.isActive]).right
    have hf : l.state = .failed := h
    simp [hf] at hr

theorem exec (s : Sound l) (c : Counted l) (h : l.Enabled e) : Counted (l.exec e) := by
  cases e
  case offer i => exact c.offer
  case deliver i d =>
    exact c.congr (f := ({ · with delivery := d })) rfl (fun _ => rfl) (fun _ => rfl)
      (fun _ _ _ h => h) (fun _ _ _ h => h) rfl rfl rfl
  case release i =>
    rw [Life.exec, requeue_eq]
    exact c.setState i (by simp) |>.withState ..
  case reject i =>
    rw [Life.exec, requeue_eq]
    exact c.setState i (by simp) |>.withState ..
  case accept i => exact accept s c h
  case expire i => exact c.setState i (by simp)
  case finish i ok =>
    rw [Life.exec, conclude_eq]
    exact c.setState i conclusion_not_leased |>.withState ..
  case finishExpired i ok =>
    rw [Life.exec, conclude_eq]
    exact c.setState i conclusion_not_leased |>.withState ..
  case cancel => exact c.withState ..
  case retry => exact retry s c h
  case poison => exact c.withState ..

-- The counter is the number of attempts that were accepted since the last retry.
theorem countP_eq (s : Sound l) (c : Counted l) : l.slots.countP (·.id ∈ l.accepted) = l.count := by
  have hnd : ((l.slots.filter (·.id ∈ l.accepted)).map Slot.id).Nodup :=
    s.nodup.sublist <| List.filter_sublist.map _
  have hp : ((l.slots.filter (·.id ∈ l.accepted)).map Slot.id).Perm l.accepted := by
    refine (List.perm_ext_iff_of_nodup hnd c.nodup).mpr fun i => ?_
    constructor
    case mp =>
      intro hi
      have ⟨a, ha, hk⟩ := List.mem_map.mp hi
      exact hk ▸ of_decide_eq_true (List.mem_filter.mp ha).right
    case mpr =>
      intro hi
      obtain ⟨a, ha, rfl, -⟩ := c.recorded i hi
      exact List.mem_map.mpr ⟨a, List.mem_filter.mpr ⟨ha, decide_eq_true hi⟩, rfl⟩
  calc l.slots.countP (·.id ∈ l.accepted)
    _ = ((l.slots.filter (·.id ∈ l.accepted)).map Slot.id).length := by
      simp [List.countP_eq_length_filter]
    _ = l.accepted.length := hp.length_eq
    _ = l.count := c.since

end Counted

-- The budget of a run, in terms of the attempts accepted since its last retry.
structure WithinBudget (l : Life) : Prop where
  pos    : 0 < l.budget
  le     : l.count ≤ l.budget
  queued : l.state = .queued → l.count < l.budget
  spare  : ∀ a ∈ l.slots, a.state.isActive → a.accepted = false → l.count < l.budget

namespace WithinBudget

theorem initial {n} (h : 0 < n) : WithinBudget (.initial n) where
  pos    := h
  le     := Nat.zero_le _
  queued _ := h
  spare  := nofun

theorem setState (w : WithinBudget l) {st : AttemptState}
    (h : ∀ a ∈ l.slots, a.id = id → st.isActive → a.state.isActive) :
    WithinBudget (l.setState id st) where
  pos    := w.pos
  le     := w.le
  queued := w.queued
  spare  := by
    refine Keyed.forall_mem_modify.mpr fun a ha => ?_
    split
    case isTrue hk => exact fun hs hf => w.spare a ha (h a ha hk hs) hf
    case isFalse => exact w.spare a ha

theorem withState (w : WithinBudget l) {state : RunState} {executed : List Uuid}
    (h : state = .queued → l.count < l.budget) : WithinBudget { l with state, executed } where
  pos    := w.pos
  le     := w.le
  queued := h
  spare  := w.spare

theorem accept (s : Sound l) (c : Counted l) (w : WithinBudget l) (h : l.Enabled (.accept id)) :
    WithinBudget (l.exec (.accept id)) := by
  have hcount := (Counted.accept s c h).count
  obtain ⟨a, ha, rfl, hs⟩ := h
  have hactive : a.state.isActive := by rcases hs with hs | hs <;> simp [hs, AttemptState.isActive]
  have hle : (l.exec (.accept a.id)).count ≤ l.budget := by
    have hacc := Counted.acceptedCount_accept s ha
    have hoff : (l.exec (.accept a.id)).offset = l.offset := rfl
    obtain ⟨hc, hw⟩ := And.intro c.count w.le
    cases ha' : a.accepted <;> simp only [ha', Bool.toNat_false, Bool.toNat_true] at hacc
    case false =>
      have hlt := w.spare a ha hactive ha'
      omega
    case true => omega
  constructor
  case pos => exact w.pos
  case le => exact hle
  case queued =>
    have hr := (s.of_active ha hactive).right
    intro hq
    have hq : l.state = .queued := hq
    simp [hq] at hr
  case spare =>
    refine Keyed.forall_mem_modify.mpr fun b hb => ?_
    split
    case isTrue => rintro _ ⟨⟩
    case isFalse hk => exact fun hb' _ => absurd (s.active_unique hb ha hb' hactive ▸ rfl) hk

-- The offer of a run that goes back to the queue was not accepted, so the budget still has room.
theorem requeue (c : Counted l) (w : WithinBudget l) (ha : a ∈ l.slots) (hs : a.state = .offered)
    {st : AttemptState} (hst : st.isActive = false) :
    WithinBudget (l.setState a.id st).requeue := by
  have hlt : l.count < l.budget :=
    w.spare a ha (by simp [hs, AttemptState.isActive]) (c.offered a ha hs)
  rw [requeue_eq]
  exact w.setState (fun _ _ _ h => by simp [hst] at h) |>.withState fun _ => hlt

theorem conclude (w : WithinBudget l) {ok : Bool} : WithinBudget (l.conclude id ok) := by
  have hw : WithinBudget (l.setState id l.conclusion) :=
    w.setState fun _ _ _ h => by simp [conclusion_not_active] at h
  rw [conclude_eq]
  refine hw.withState fun hq => ?_
  -- A run only goes back to the queue when the check of the budget said so.
  unfold Life.conclude next at hq
  split at hq
  case isTrue hc => simp [Life.setState, Life.modify, hc] at hq
  case isFalse =>
    split at hq
    case isTrue => contradiction
    case isFalse =>
      split at hq
      case isTrue hlt => exact hlt
      case isFalse => contradiction

theorem exec (s : Sound l) (c : Counted l) (w : WithinBudget l) (h : l.Enabled e) :
    WithinBudget (l.exec e) := by
  cases e
  case offer i =>
    constructor
    case pos => exact w.pos
    case le => exact w.le
    case queued => rintro ⟨⟩
    case spare => exact fun _ _ _ _ => w.queued h.left
  case deliver i d =>
    constructor
    case pos => exact w.pos
    case le => exact w.le
    case queued => exact w.queued
    case spare =>
      refine Keyed.forall_mem_modify.mpr fun a ha => ?_
      split <;> exact w.spare a ha
  case release i =>
    obtain ⟨a, ha, rfl, hs, -⟩ := h
    exact requeue c w ha hs rfl
  case reject i =>
    obtain ⟨a, ha, rfl, hs⟩ := h
    exact requeue c w ha hs rfl
  case accept i => exact accept s c w h
  case expire i =>
    obtain ⟨a, ha, rfl, hs⟩ := h
    refine w.setState fun b hb hk _ => ?_
    rcases hs with hs | hs <;> simp [s.unique hb ha hk, hs, AttemptState.isActive]
  case finish i ok =>
    have hc : WithinBudget (l.conclude i ok) := w.conclude
    exact hc.withState hc.queued
  case finishExpired i ok => exact w.conclude
  case cancel => exact w.withState (by rintro ⟨⟩)
  case retry =>
    constructor
    case pos => exact w.pos
    case le => exact Nat.zero_le _
    case queued => exact fun _ => w.pos
    case spare => exact fun _ _ _ _ => w.pos
  case poison => exact w.withState (by rintro ⟨⟩)

end WithinBudget

theorem conclude_failed (w : WithinBudget l) {ok : Bool} (h : (l.conclude id ok).state = .failed) :
    l.count = l.budget := by
  unfold Life.conclude next at h
  split at h
  case isTrue hc => simp [setState, modify, hc] at h
  case isFalse =>
    split at h
    case isTrue => contradiction
    case isFalse =>
      split at h
      case isTrue => contradiction
      case isFalse hlt => exact le_antisymm w.le (not_lt.mp hlt)

-- A run fails when its budget is used up, or when its input is found to be poisoned.
theorem failed_of_budget (w : WithinBudget l) (hn : l.state ≠ .failed)
    (hf : (l.exec e).state = .failed) : e = .poison ∨ (l.exec e).count = (l.exec e).budget := by
  have hr {i : Uuid} {st : AttemptState} : (l.setState i st).requeue.state ≠ .failed := by
    unfold requeue
    split
    case isTrue => nofun
    case isFalse => exact hn
  cases e
  case release i => exact absurd hf hr
  case reject i => exact absurd hf hr
  case finish i ok =>
    have h : l.count = l.budget := conclude_failed w hf
    right
    rw [exec, conclude_eq]
    exact h
  case finishExpired i ok =>
    have h : l.count = l.budget := conclude_failed w hf
    right
    rw [exec, conclude_eq]
    exact h
  case poison => exact .inl rfl
  all_goals contradiction

-- An attempt that was both accepted and executed since the last retry is one of the accepted ones.
def Executed (l : Life) : Prop :=
  ∀ a ∈ l.slots, a.id ∈ l.executed → a.accepted → a.id ∈ l.accepted

namespace Executed

theorem modify (h : Executed l) {f : Slot → Slot} (hid : ∀ a, (f a).id = a.id)
    (hacc : ∀ a, (f a).accepted = a.accepted) : Executed (l.modify id f) := by
  refine Keyed.forall_mem_modify.mpr fun a ha => ?_
  split
  case isTrue =>
    rw [hid, hacc]
    exact h a ha
  case isFalse => exact h a ha

theorem setState (h : Executed l) {st : AttemptState} : Executed (l.setState id st) :=
  h.modify (fun _ => rfl) (fun _ => rfl)

theorem finish (s : Sound l) (c : Counted l) (h : Executed l) {ok : Bool}
    (he : l.Enabled (.finish id ok)) : Executed (l.exec (.finish id ok)) := by
  obtain ⟨a, ha, rfl, hd, hx, h₁, h₂⟩ := he
  have hl : a.accepted → a.id ∈ l.accepted := by
    have hs := s.active_of_finish ha hd h₁ h₂
    cases ha' : a.state <;> simp_all [AttemptState.isActive, c.offered a ha, c.live a ha]
  rw [Life.exec, conclude_eq]
  refine Keyed.forall_mem_modify.mpr fun b hb => ?_
  have hb' : b.id ∈ l.executed.insert a.id → b.accepted → b.id ∈ l.accepted := by
    intro hm hacc
    rcases List.mem_insert_iff.mp hm with hk | hm
    case inl =>
      rw [s.unique hb ha hk] at hacc ⊢
      exact hl hacc
    case inr => exact h b hb hm hacc
  split <;> exact hb'

theorem exec (s : Sound l) (c : Counted l) (h : Executed l) (he : l.Enabled e) :
    Executed (l.exec e) := by
  cases e
  case offer i =>
    intro a ha
    rcases List.mem_append.mp ha with ha | ha
    case inl => exact h a ha
    case inr => simp [List.mem_singleton.mp ha, newSlot]
  case deliver i d => exact h.modify (fun _ => rfl) (fun _ => rfl)
  case release i =>
    rw [Life.exec, requeue_eq]
    exact h.setState
  case reject i =>
    rw [Life.exec, requeue_eq]
    exact h.setState
  case accept i =>
    refine Keyed.forall_mem_modify.mpr fun a ha => ?_
    split
    case isTrue hk => exact fun _ _ => List.mem_insert_iff.mpr <| .inl hk
    case isFalse => exact fun hm hacc => List.mem_insert_of_mem <| h a ha hm hacc
  case expire i => exact h.setState
  case finish i ok => exact finish s c h he
  case finishExpired i ok =>
    rw [Life.exec, conclude_eq]
    exact h.setState
  case cancel => exact h
  case retry => exact fun _ _ hm => by cases hm
  case poison => exact h

-- Executions whose acceptance was recorded are bounded by the budget.
theorem countP_le (s : Sound l) (c : Counted l) (w : WithinBudget l) (h : Executed l) :
    l.slots.countP (fun a => a.id ∈ l.executed && a.accepted) ≤ l.budget := by
  let p (a : Slot) : Bool := a.id ∈ l.executed && a.accepted
  have hnd : ((l.slots.filter p).map Slot.id).Nodup := s.nodup.sublist <| List.filter_sublist.map _
  have hsub : (l.slots.filter p).map Slot.id ⊆ l.accepted := by
    intro i hi
    have ⟨a, ha, hk⟩ := List.mem_map.mp hi
    have ⟨ha, hp⟩ := List.mem_filter.mp ha
    have ⟨hm, hacc⟩ : a.id ∈ l.executed ∧ a.accepted := by simpa [p] using hp
    exact hk ▸ h a ha hm hacc
  calc l.slots.countP p
    _ = ((l.slots.filter p).map Slot.id).length := by simp [List.countP_eq_length_filter]
    _ ≤ l.accepted.length := (hnd.subperm hsub).length_le
    _ = l.count := c.since
    _ ≤ l.budget := w.le

end Executed

theorem exec_budget : (l.exec e).budget = l.budget := by
  cases e
  case release i | reject i =>
    rw [exec, requeue_eq]
    rfl
  case finish i ok | finishExpired i ok =>
    rw [exec, conclude_eq]
    rfl
  all_goals rfl

-- What holds of every life that began as a new run.
structure Lawful (l : Life) : Prop where
  sound    : Sound l
  numbered : Numbered l
  counted  : Counted l
  executed : Executed l
  budget   : 0 < l.budget → WithinBudget l

namespace Lawful

theorem initial {n} : Lawful (.initial n) where
  sound    := .initial
  numbered := rfl
  counted  := .initial
  executed := nofun
  budget   := .initial

theorem exec (h : Lawful l) (he : l.Enabled e) : Lawful (l.exec e) where
  sound    := h.sound.exec he
  numbered := h.numbered.exec
  counted  := h.counted.exec h.sound he
  executed := h.executed.exec h.sound h.counted he
  budget   := fun hb => (h.budget <| exec_budget ▸ hb).exec h.sound h.counted he

end Lawful

end Scheduler.Life
