import TaskScheduler.Cron.Invariant

namespace Scheduler

open Schedule

-- The clock does not go backwards.
def CronState.ClockAdvances (σ : CronState) : CronAction → Prop
  | .tick now => σ.clock ≤ now
  | _         => True

instance {σ : CronState} : ∀ a, Decidable (σ.ClockAdvances a)
  | .tick now => inferInstanceAs (Decidable (σ.clock ≤ now))
  | .exec _ | .begin _ | .read .. | .step .. | .crash => .isTrue trivial

def steadyCron (rt : CronRuntime) : Machine CronState CronAction :=
  (cronMachine rt).restrict CronState.ClockAdvances

instance {rt : CronRuntime} {σ : CronState} {a : CronAction} : Decidable ((steadyCron rt).Enabled σ a) :=
  inferInstanceAs (Decidable (σ.Enabled a ∧ σ.ClockAdvances a))

-- If the schedule has a cron expression at all, its next occurrences lie after `t`.
def Schedule.After (r : Schedule) (t : Time) : Prop :=
  r.cronExpression.isSome → t ≤ r.cursor

namespace Schedule

variable {r r₁ r₂ : Schedule} {now t : Time}

theorem After.of_lastCronAt (h : ∃ t' ∈ r.lastCronAt, t ≤ t') : r.After t := by
  obtain ⟨t', ht', hl⟩ := h
  intro _
  simpa [cursor, Option.mem_def.mp ht'] using hl

theorem After.edited (h : r₁.After t) (he : r₁.Edited now r₂) (ht : t ≤ now) : r₂.After t := by
  have late (h : ∃ t' ∈ r₂.lastCronAt, now ≤ t') : r₂.After t :=
    have ⟨t', ht', hl⟩ := h
    .of_lastCronAt ⟨t', ht', ht.trans hl⟩
  by_cases hi : r₂.cronIdentity = r₁.cronIdentity
  case neg => exact late <| he.changed hi
  case pos =>
    intro hc
    by_cases hn : r₁.enabled ∨ r₂.enabled = false
    case pos =>
      have hx : r₂.cronExpression = r₁.cronExpression := congrArg Prod.fst hi
      simpa [cursor, he.kept hi hn, he.createdAt] using h <| hx ▸ hc
    case neg =>
      simp only [not_or, Bool.not_eq_true, Bool.not_eq_false] at hn
      exact late (he.resumed hn.left hn.right hc) hc

-- A schedule that was changed or resumed at `now` fires at later instants only.
theorem Edited.after_changed (he : r₁.Edited now r₂) (h : r₂.cronIdentity ≠ r₁.cronIdentity) : r₂.After now :=
  .of_lastCronAt <| he.changed h

theorem Edited.after_resumed (he : r₁.Edited now r₂) (h₁ : r₁.enabled = false) (h₂ : r₂.enabled) :
    r₂.After now :=
  fun hc => After.of_lastCronAt (he.resumed h₁ h₂ hc) hc

end Schedule

namespace CronState

variable {rt : CronRuntime} {σ σ' σ₁ σ₂ : CronState} {a b : CronAction} {i : Nat} {id : Uuid}
  {t instant : Time} {x : TriggerTarget}

section Steps

variable {s' : Store} {p p' : Option Pass} {r : Schedule}

-- Where the records of a pass come from.
theorem Continues.records (h : σ.Continues rt p s' p') :
    ∀ q' ∈ p', ∀ r ∈ q'.records, r ∈ σ.store.schedules ∨ ∃ q ∈ p, r ∈ q.records := by
  have sub {q q' : Pass} (hs : q'.records.Sublist q.records) :
      ∀ r ∈ q'.records, r ∈ σ.store.schedules ∨ ∃ q₀ ∈ some q, r ∈ q₀.records :=
    fun r hr => .inr ⟨q, rfl, hs.subset hr⟩
  cases h
  case ended => exact fun q h => absurd h <| Option.not_mem_none q
  case begun =>
    rintro _ ⟨⟩ r hr
    exact absurd hr List.not_mem_nil
  case read =>
    rintro _ ⟨⟩ r hr
    exact .inl (Store.mem_cronSchedules hr).left
  case skipped =>
    rintro _ ⟨⟩
    exact sub <| (List.sublist_cons_self _ _).trans (List.sublist_append_right _ _)
  case started =>
    rintro _ ⟨⟩
    exact sub <| List.sublist_append_right _ _
  case stopped =>
    rintro _ ⟨⟩
    exact sub <| List.sublist_append_right _ _
  case repeated =>
    rintro _ ⟨⟩
    exact sub <| .refl _
  case inserted =>
    rintro _ ⟨⟩
    exact sub <| .refl _

-- A pass keeps the reading of the clock that it began with.
theorem Continues.now (h : σ.Continues rt p s' p') :
    ∀ q' ∈ p', q'.now = σ.clock ∨ ∃ q ∈ p, q'.now = q.now := by
  cases h
  case ended => exact fun q h => absurd h <| Option.not_mem_none q
  case begun =>
    rintro _ ⟨⟩
    exact .inl rfl
  all_goals
    rintro _ ⟨⟩
    exact .inr ⟨_, rfl, rfl⟩

-- An occurrence is inserted by the pass `q`, from a record of the schedule as it is.
structure Inserts (rt : CronRuntime) (σ : CronState) (s' : Store) (instant : Time) (x : TriggerTarget)
    (q : Pass) (record r : Schedule) : Prop where
  held      : record ∈ q.records
  current   : r ∈ σ.store.schedules
  id        : r.id = record.id
  content   : r.content = record.content
  advances  : Advances record.lastCronAt r.lastCronAt
  cursor    : record.cursor ≤ r.cursor
  enabled   : r.enabled
  createdAt : r.lastCronAt = none → r.createdAt ≤ instant
  -- The instants before it are dealt with.
  due       : ∃ cron done rest, record.spec.cron = some cron ∧
    rt.calendar.dueCronBatch cron record.cursor q.now = .ok (done ++ instant :: rest) ∧
    ∀ o ∈ done, σ.store.Fired record.id o
  schedules : σ.store.Advanced record.id instant s'
  built     : Store.Built rt s' record instant x
  occursAt  : ∀ id o y, s'.OccursAt id o y ↔ σ.store.OccursAt id o y ∨ id = record.id ∧ o = instant ∧ y = x

namespace Inserts

variable {q : Pass} {record : Schedule} (h : Inserts rt σ s' instant x q record r)
include h

theorem mem_due : record.cursor < instant ∧ instant ≤ q.now := by
  obtain ⟨cron, done, rest, _, hd, _⟩ := h.due
  exact Calendar.dueCronBatch_mem hd <| List.mem_append_right done List.mem_cons_self

theorem revision : record.revision = r.revision := by
  rw [content_eq h.content]

theorem cronIdentity : r.cronIdentity = record.cronIdentity := by
  rw [content_eq h.content, Schedule.cronIdentity, Schedule.cronIdentity]

theorem isSome_cronExpression (hc : r.Columns) : record.cronExpression.isSome := by
  obtain ⟨cron, _, _, hs, _⟩ := h.due
  have he : r.cronExpression = record.cronExpression := congrArg Prod.fst h.cronIdentity
  have hs' : r.spec = record.spec := by rw [content_eq h.content]
  simp [← he, hc.expression, hs', hs]

end Inserts

theorem Continues.inserts (h : σ.Sound rt) (hc : σ.Continues rt (σ.passes i) s' p')
    (hx : s'.OccursAt id instant x) (hn : ¬σ.store.OccursAt id instant x) :
    ∃ q ∈ σ.passes i, ∃ record r, record.id = id ∧ Inserts rt σ s' instant x q record r := by
  have hp := h.passes i
  generalize σ.passes i = old at hc hp ⊢
  cases hc
  case inserted now todo record cron next due r y hr ha hf hs hb ho ht =>
    rcases ho id instant x |>.mp hx with hy | ⟨rfl, rfl, rfl⟩
    case inl => exact absurd hy hn
    case inr =>
      have hp := hp _ rfl
      have ⟨⟨hc, hv, hl⟩, _⟩ := hp.admitted hr ha
      have ⟨hc', done, hd, hf'⟩ := hp.firing _ rfl
      refine ⟨_, rfl, record, r, rfl, ?_⟩
      constructor
      case held => exact List.mem_append_left _ <| List.mem_singleton.mpr rfl
      case current => exact hr
      case id => exact ha.id
      case content => exact hc
      case advances => exact hv
      case cursor => exact hl
      case enabled => exact ha.enabled
      case createdAt => exact hp.createdAt_le hr ha hr ha.id
      case due => exact ⟨cron, done, due, hc', hd, hf'⟩
      case schedules => exact hs
      case built => exact hb
      case occursAt => exact ho
  all_goals exact absurd hx hn

theorem Moves.inserts (h : σ.Sound rt) (hm : Moves rt σ a σ') (hx : σ'.store.OccursAt id instant x)
    (hn : ¬σ.store.OccursAt id instant x) :
    ∃ i, ∃ q ∈ σ.passes i, ∃ record r, record.id = id ∧ Inserts rt σ σ'.store instant x q record r := by
  cases hm
  case exec hc _ => exact absurd (Store.exec_occursAt h.triggered hc |>.mp hx) hn
  case pass i s' p hc => exact ⟨i, hc.inserts h hx hn⟩
  case tick | crash | idle => exact absurd hx hn

-- What an action does to one schedule.
inductive Changes (σ σ' : CronState) (r r' : Schedule) : Prop
  | kept (h : r' = r)
  | edited (h : r.Edited σ.clock r') (hp : σ'.passes = σ.passes) (hc : σ'.clock = σ.clock)
      (hx : ∀ id instant x, σ'.store.OccursAt id instant x ↔ σ.store.OccursAt id instant x)
  | advanced {next : Time} {x : TriggerTarget}
      (h : r' = { r with lastCronAt := Store.latest r.lastCronAt next })
      (hx : σ'.store.OccursAt r.id next x) (hn : ¬σ.store.OccursAt r.id next x)

theorem Moves.changes {r' : Schedule} (h : σ.Sound rt) (hm : Moves rt σ a σ') (hr : r ∈ σ.store.schedules)
    (hr' : r' ∈ σ'.store.schedules) (hi : r'.id = r.id) : Changes σ σ' r r' := by
  cases hm
  case exec hn ht =>
    have ⟨r₁, hr₁, h₁⟩ := (Store.exec_edits hn ht h.columns).forth r hr
    have hi₁ : r₁.id = r.id := by
      rcases h₁ with rfl | h₁
      case inl => rfl
      case inr => exact h₁.id
    obtain rfl : r' = r₁ := Table.key_injOn hr' hr₁ <| hi.trans hi₁.symm
    rcases h₁ with rfl | h₁
    case inl => exact .kept rfl
    case inr => exact .edited h₁ rfl rfl fun _ _ _ => Store.exec_occursAt h.triggered hn
  case pass i s' p hc =>
    generalize σ.passes i = old at hc
    cases hc
    case inserted next _ _ x _ _ hf hs _ hx _ =>
      obtain ⟨r₁, hr₁, rfl⟩ := hs.exists_left hr'
      obtain rfl : r₁ = r := Table.key_injOn hr₁ hr <| by
        split at hi <;> exact hi
      split
      case isTrue he =>
        exact .advanced rfl (hx _ _ _ |>.mpr <| .inr ⟨he, rfl, rfl⟩) fun hy => hf ⟨x, he ▸ hy⟩
      case isFalse => exact .kept rfl
    all_goals exact .kept <| Table.key_injOn hr' hr hi
  case tick | crash | idle => exact .kept <| Table.key_injOn hr' hr hi

theorem Moves.later (h : σ.Sound rt) (hm : Moves rt σ a σ') : σ.store.Later σ'.store := by
  cases hm
  case exec op hn ht =>
    exact (Store.exec_edits hn ht h.columns).later fun _ _ ⟨x, hx⟩ =>
      ⟨x, Store.exec_occursAt h.triggered hn |>.mpr hx⟩
  case pass i s' p hc => exact h.continues_later hc
  case tick | crash | idle => exact .refl

theorem Moves.clock (hm : Moves rt σ a σ') (ha : σ.ClockAdvances a) : σ.clock ≤ σ'.clock := by
  cases hm
  case tick => exact ha
  all_goals exact le_refl σ.clock

end Steps

-- What holds as long as the clock does not go backwards.
structure Timely (σ : CronState) : Prop where
  passes : ∀ i, ∀ p ∈ σ.passes i, p.now ≤ σ.clock
  fired  : ∀ id instant, σ.store.Fired id instant → instant ≤ σ.clock ∧
    ∃ r ∈ σ.store.schedules, r.id = id ∧ ∃ t ∈ r.lastCronAt, instant ≤ t

namespace Timely

theorem initial : Timely .initial where
  passes _ p hp := absurd hp <| Option.not_mem_none p
  fired _ _     := by
    rintro ⟨- | -, _, h, -⟩ <;> exact absurd h Table.not_mem_empty

theorem passes_moves (h : σ.Timely) (hm : Moves rt σ a σ') (ha : σ.ClockAdvances a) :
    ∀ i, ∀ p ∈ σ'.passes i, p.now ≤ σ'.clock := by
  have hl := hm.clock ha
  cases hm
  case tick | exec | idle => exact fun i p hp => (h.passes i p hp).trans hl
  case crash => exact fun _ p hp => absurd hp <| Option.not_mem_none p
  case pass i s' p hc =>
    intro j q hq
    by_cases he : j = i
    case neg =>
      simp only [setPass, Function.update_of_ne he] at hq
      exact h.passes j q hq
    case pos =>
      subst he
      simp only [setPass, Function.update_self] at hq
      rcases hc.now q hq with hn | ⟨q₀, hq₀, hn⟩
      case inl => exact hn.le
      case inr => exact hn.trans_le <| h.passes j q₀ hq₀

-- The cursor stays behind no instant at which the schedule has fired.
theorem cursor_moves (h : σ.Timely) (hs : σ.Sound rt) (hm : Moves rt σ a σ') (hf : σ.store.Fired id instant) :
    ∃ r ∈ σ'.store.schedules, r.id = id ∧ ∃ t ∈ r.lastCronAt, instant ≤ t := by
  have ⟨hl, r, hr, hi, ht⟩ := h.fired id instant hf
  have ⟨r', hr', hv⟩ := (hm.later hs).schedules r hr
  refine ⟨r', hr', hv.id.trans hi, ?_⟩
  have adv (h : Advances r.lastCronAt r'.lastCronAt) : ∃ t ∈ r'.lastCronAt, instant ≤ t := by
    obtain ⟨t, ht, hle⟩ := ht
    have ⟨t', ht', hle'⟩ := h t ht
    exact ⟨t', ht', hle.trans hle'⟩
  cases hm.changes hs hr hr' hv.id
  case kept he => exact he ▸ ht
  case advanced he _ _ => exact adv <| he ▸ advances_latest
  case edited he _ _ _ =>
    by_cases hc : r'.cronIdentity = r.cronIdentity
    case pos => exact adv <| he.advances hc
    case neg =>
      have ⟨t, ht, hle⟩ := he.changed hc
      exact ⟨t, ht, hl.trans hle⟩

theorem moves (h : σ.Timely) (hs : σ.Sound rt) (hm : Moves rt σ a σ') (ha : σ.ClockAdvances a) : σ'.Timely where
  passes := h.passes_moves hm ha
  fired id instant := by
    intro ⟨x, hx⟩
    by_cases hf : σ.store.OccursAt id instant x
    case pos => exact ⟨(h.fired id instant ⟨x, hf⟩).left.trans <| hm.clock ha, h.cursor_moves hs hm ⟨x, hf⟩⟩
    case neg =>
      obtain ⟨i, q, hq, record, r, rfl, hi⟩ := hm.inserts hs hx hf
      have hl := hi.mem_due.right.trans <| h.passes i q hq
      refine ⟨hl.trans <| hm.clock ha, _, hi.schedules.exists_right hi.current, ?_⟩
      rw [if_pos hi.id]
      exact ⟨hi.id, le_latest⟩

end Timely

theorem sound_timely (h : (steadyCron rt).Reachable .initial σ) : σ.Sound rt ∧ σ.Timely := by
  refine h.invariant (I := fun σ => σ.Sound rt ∧ σ.Timely) ?_ ⟨.initial, .initial⟩
  intro σ a ⟨hs, ht⟩ ⟨he, ha⟩
  have hm : Moves rt σ a _ := exec_moves hs.triggered he
  exact ⟨hs.moves hm, ht.moves hs hm ha⟩

-- Whatever is inserted for the schedule from now on lies after `t`.
def Guards (σ : CronState) (id : Uuid) (t : Time) : Prop :=
  ∃ r ∈ σ.store.schedules, r.id = id ∧ r.After t ∧
    ∀ i, ∀ p ∈ σ.passes i, ∀ record ∈ p.records, record.id = id → record.revision = r.revision →
      record.After t

section Guards

variable {as bs : List CronAction} {r r' : Schedule}

theorem Moves.records (hm : Moves rt σ a σ') : ∀ i, ∀ p ∈ σ'.passes i, ∀ record ∈ p.records,
    record ∈ σ.store.schedules ∨ ∃ j, ∃ q ∈ σ.passes j, record ∈ q.records := by
  intro j p hp record hr
  cases hm
  case tick | exec | idle => exact .inr ⟨j, p, hp, hr⟩
  case crash => exact absurd hp <| Option.not_mem_none p
  case pass i s' p' hc =>
    by_cases he : j = i
    case neg =>
      simp only [setPass, Function.update_of_ne he] at hp
      exact .inr ⟨j, p, hp, hr⟩
    case pos =>
      subst he
      simp only [setPass, Function.update_self] at hp
      refine (hc.records p hp record hr).imp_right ?_
      rintro ⟨q, hq, hr⟩
      exact ⟨j, q, hq, hr⟩

-- No pass knows a revision that is yet to come.
theorem Sound.revision_le (h : σ.Sound rt) {p : Pass} {record : Schedule} (hp : p ∈ σ.passes i)
    (hm : record ∈ p.records) (hr : r ∈ σ.store.schedules) (hi : record.id = r.id) :
    record.revision ≤ r.revision := by
  have ⟨r₁, hr₁, hv⟩ := (h.passes i p hp).current record hm
  obtain rfl : r₁ = r := Table.key_injOn hr₁ hr <| hv.id.trans hi
  rcases hv.version with hv | ⟨hc, -⟩
  case inl => exact hv.le
  case inr =>
    rw [content_eq hc]

theorem Guards.lt_of_inserted (h : σ.Guards id t) (hs : σ.Sound rt) (hm : Moves rt σ a σ')
    (hx : σ'.store.OccursAt id instant x) (hn : ¬σ.store.OccursAt id instant x) : t < instant := by
  obtain ⟨r, hr, hi, ha, hp⟩ := h
  obtain ⟨i, q, hq, record, r₁, rfl, hin⟩ := hm.inserts hs hx hn
  obtain rfl : r₁ = r := Table.key_injOn hin.current hr <| hin.id.trans hi.symm
  have hl := hp i q hq record hin.held rfl hin.revision <| hin.isSome_cronExpression <| hs.columns r₁ hr
  exact hl.trans_lt hin.mem_due.left

theorem Guards.moves (h : σ.Guards id t) (hs : σ.Sound rt) (hm : Moves rt σ a σ') (ht : t ≤ σ.clock) :
    σ'.Guards id t := by
  have hlt {next x} (hx : σ'.store.OccursAt id next x) (hn : ¬σ.store.OccursAt id next x) : t < next :=
    h.lt_of_inserted hs hm hx hn
  obtain ⟨r, hr, rfl, ha, hp⟩ := h
  have ⟨r', hr', hv⟩ := (hm.later hs).schedules r hr
  have hc := hm.changes hs hr hr' hv.id
  refine ⟨r', hr', hv.id, ?_, ?_⟩
  case refine_1 =>
    cases hc
    case kept he => exact he ▸ ha
    case edited he _ _ _ => exact ha.edited he ht
    case advanced next x he hx hn =>
      subst he
      intro hc
      have ha := ha hc
      have hl := hlt hx hn
      cases hl' : r.lastCronAt
      case none => simpa [cursor, Store.latest, hl'] using hl.le
      case some t₀ =>
        simp only [cursor, hl', Option.getD_some] at ha
        simpa [cursor, Store.latest, hl'] using .inr ha
  case refine_2 =>
    intro j p hp' record hm' hi hv'
    rcases hm.records j p hp' record hm' with hm' | ⟨i, q, hq, hm'⟩
    case inl =>
      obtain rfl : record = r := Table.key_injOn hm' hr hi
      exact ha
    case inr =>
      cases hc
      case kept he => exact hp i q hq record hm' hi (he ▸ hv')
      case advanced he _ _ => exact hp i q hq record hm' hi (hv'.trans <| by rw [he])
      case edited he _ _ _ =>
        have hl := hs.revision_le hq hm' hr hi
        rw [hv', he.revision] at hl
        omega

theorem Guards.run (h : σ.Guards id t) (hs : σ.Sound rt) (ht : t ≤ σ.clock)
    (v : (steadyCron rt).Valid σ as) (hx : ((steadyCron rt).run σ as).store.OccursAt id instant x) :
    σ.store.OccursAt id instant x ∨ t < instant := by
  let I (σ' : CronState) : Prop := σ'.Sound rt ∧ σ'.Guards id t ∧ t ≤ σ'.clock ∧
    (σ'.store.OccursAt id instant x → σ.store.OccursAt id instant x ∨ t < instant)
  have hi : I ((steadyCron rt).run σ as) := by
    refine v.invariant (I := I) ?_ ⟨hs, h, ht, .inl⟩
    intro σ' a ⟨hs, hg, ht, ho⟩ ⟨he, ha⟩
    have hm : Moves rt σ' a _ := exec_moves hs.triggered he
    refine ⟨hs.moves hm, hg.moves hs hm ht, ht.trans <| hm.clock ha, fun hx => ?_⟩
    by_cases hn : σ'.store.OccursAt id instant x
    case pos => exact ho hn
    case neg => exact .inr <| hg.lt_of_inserted hs hm hx hn
  exact hi.right.right.right hx

-- A new revision that fires after `now` only puts every pass before it out of date.
theorem Edited.guards (h : r.Edited σ.clock r') (hs : σ.Sound rt) (hr : r ∈ σ.store.schedules)
    (hr' : r' ∈ σ'.store.schedules) (hp : σ'.passes = σ.passes) (ha : r'.After σ.clock) :
    σ'.Guards r.id σ.clock := by
  refine ⟨r', hr', h.id, ha, fun i p hp' record hm hi hv => ?_⟩
  have hl := hs.revision_le (hp ▸ hp') hm hr hi
  rw [hv, h.revision] at hl
  omega

end Guards

section Fenced

variable {as : List CronAction} {r r' : Schedule} {s : Store}

def IsEnabled (σ : CronState) (id : Uuid) : Prop :=
  ∃ r ∈ σ.store.schedules, r.id = id ∧ r.enabled

def IsPaused (σ : CronState) (id : Uuid) : Prop :=
  ∃ r ∈ σ.store.schedules, r.id = id ∧ r.enabled = false

-- What is built does not depend on the cursor.
theorem Built.of_content (h : Store.Built rt s r instant x) (hc : r'.content = r.content) :
    Store.Built rt s r' instant x := by
  rw [content_eq hc]
  cases h
  case run hc h hm => exact .run hc h hm
  case batch hc h hm => exact .batch hc h hm

theorem IsPaused.occursAt (h : σ.IsPaused id) (hs : σ.Sound rt) (hm : Moves rt σ a σ')
    (hx : σ'.store.OccursAt id instant x) : σ.store.OccursAt id instant x := by
  by_contra hn
  obtain ⟨r, hr, hi, hd⟩ := h
  obtain ⟨_, _, _, _, r₁, rfl, hin⟩ := hm.inserts hs hx hn
  obtain rfl : r₁ = r := Table.key_injOn hin.current hr <| hin.id.trans hi.symm
  have he := hin.enabled
  simp [hd] at he

theorem paused_run (hs : σ.Sound rt) (v : (steadyCron rt).Valid σ as)
    (hp : (steadyCron rt).Along (·.IsPaused id) σ as) :
    ((steadyCron rt).run σ as).Sound rt ∧ ((steadyCron rt).run σ as).IsPaused id ∧
      ∀ instant x, ((steadyCron rt).run σ as).store.OccursAt id instant x →
        σ.store.OccursAt id instant x := by
  induction v
  case nil => exact ⟨hs, hp, fun _ _ hx => hx⟩
  case cons σ a as ha _ hi =>
    have hm : Moves rt σ a _ := exec_moves hs.triggered ha.left
    have ⟨hs', hp', ho⟩ := hi (hs.moves hm) hp.right
    exact ⟨hs', hp', fun _ _ hx => hp.left.occursAt hs hm <| ho _ _ hx⟩

-- A pause or a resumption is an edit of the schedule.
theorem Moves.edited (hm : Moves rt σ a σ') (hs : σ.Sound rt) (hr : r ∈ σ.store.schedules)
    (hr' : r' ∈ σ'.store.schedules) (hi : r'.id = r.id) (he : r'.enabled ≠ r.enabled) :
    r.Edited σ.clock r' ∧ σ'.passes = σ.passes ∧ σ'.clock = σ.clock := by
  cases hm.changes hs hr hr' hi
  case kept h => exact absurd (h ▸ rfl) he
  case advanced h _ _ => exact absurd (h ▸ rfl) he
  case edited h hp hc _ => exact ⟨h, hp, hc⟩

end Fenced

end CronState

namespace Sample

-- A calendar with three instants, one hour apart.
def calendar : Calendar where
  invalid _       := none
  offset _ _      := 0
  ambiguous _ _   := false
  iterate _ start := [3600000, 7200000, 10800000].filter (start < ·)

def cronRuntime : CronRuntime where
  calendar
  invalidBlueprint _        := none
  invalidSource _           := none
  validateParameters _ _    := .ok ()
  renderExecutor executor _ := .ok executor
  blueprintDigest _         := "blueprint"
  parametersDigest _        := "parameters"
  encryptSeed _ _           := "seed"
  seedDigest _ _            := "digest"
  encryptOverrides _        := "overrides"

def resolved (bindings : List String) (parameters : Json) : ResolvedScheduleSnapshot where
  blueprint      := {
    executor          := .null
    parametersSchema  := .object []
    parameterBindings := bindings
    policy            := ⟨3, 60, 1, 60⟩
  }
  baseParameters := parameters

def hourlySchedule : NewSchedule :=
  { cronSchedule with encryptedSnapshot := some <| resolved [] (.object []) }

-- A pass that inserts one occurrence.
def cronPass (pass : Nat) (id : Uuid) : List CronAction := [
    .begin pass,
    .read pass [1],
    .step pass ⟨id, 2 * id, 0⟩,
    .step pass ⟨id, 2 * id, 0⟩
  ]

def firedOnce : List CronAction :=
  .exec (.createSchedule hourlySchedule 0) :: .tick 4000000 :: cronPass 0 10

-- The second instant falls into a pause.
def pausedOnce : CronState :=
  (steadyCron cronRuntime).run .initial <| firedOnce ++
    .exec (.setScheduleEnabled 1 false 4000000) :: .tick 8000000 ::
    .exec (.setScheduleEnabled 1 true 8000000) :: .tick 12000000 :: cronPass 1 11

end Sample

namespace CronState

open Sample

end CronState

end Scheduler
