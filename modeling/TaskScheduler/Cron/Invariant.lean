import TaskScheduler.Cron.Effects

namespace Scheduler

open Schedule

-- A store to which transactions have led from `s`.
structure Store.Later (s s' : Store) : Prop where
  schedules : ∀ r ∈ s.schedules, ∃ r' ∈ s'.schedules, r.Precedes r'
  fired     : ∀ id instant, s.Fired id instant → s'.Fired id instant

namespace Store

variable {s s' : Store} {now next : Time} {id : Uuid} {r : Schedule}

theorem Later.refl : s.Later s where
  schedules r h := ⟨r, h, .refl⟩
  fired _ _     := id

theorem Edits.later (h : s.Edits now s') (hf : ∀ id instant, s.Fired id instant → s'.Fired id instant) :
    s.Later s' where
  schedules r hr := by
    obtain ⟨r', hr', rfl | he⟩ := h.forth r hr
    case inl => exact ⟨r', hr', .refl⟩
    case inr => exact ⟨r', hr', he.precedes⟩
  fired := hf

theorem Advanced.exists_right (h : s.Advanced id next s') (hr : r ∈ s.schedules) :
    (if r.id = id then { r with lastCronAt := latest r.lastCronAt next } else r) ∈ s'.schedules := by
  rw [← Table.mem_rows, h]
  exact List.mem_map_of_mem hr

theorem Advanced.exists_left {r' : Schedule} (h : s.Advanced id next s') (hr : r' ∈ s'.schedules) :
    ∃ r ∈ s.schedules, r' = if r.id = id then { r with lastCronAt := latest r.lastCronAt next } else r := by
  rw [← Table.mem_rows, h] at hr
  have ⟨r, hm, he⟩ := List.mem_map.mp hr
  exact ⟨r, hm, he.symm⟩

-- The cursor as a schedule shows it moves on as well, since no occurrence lies before the creation.
theorem cursor_advanced (h : r.lastCronAt = none → r.createdAt ≤ next) :
    ({ r with lastCronAt := latest r.lastCronAt next } : Schedule).cursor = max next r.cursor := by
  cases hl : r.lastCronAt
  case none => simpa [cursor, latest, hl] using (max_eq_left <| h hl).symm
  case some => simp [cursor, latest, hl]

theorem precedes_advanced (h : r.id = id → r.lastCronAt = none → r.createdAt ≤ next) :
    r.Precedes (if r.id = id then { r with lastCronAt := latest r.lastCronAt next } else r) := by
  split
  case isTrue hi => exact ⟨rfl, .inr ⟨rfl, advances_latest, by rw [cursor_advanced (h hi)]; exact le_max_right ..⟩⟩
  case isFalse => exact .refl

theorem Advanced.later (h : s.Advanced id next s')
    (hl : ∀ r ∈ s.schedules, r.id = id → r.lastCronAt = none → r.createdAt ≤ next)
    (hf : ∀ id instant, s.Fired id instant → s'.Fired id instant) : s.Later s' where
  schedules r hr := ⟨_, h.exists_right hr, precedes_advanced <| hl r hr⟩
  fired          := hf

theorem mem_cronSchedules {order : List Uuid} (h : r ∈ s.cronSchedules order) :
    r ∈ s.schedules ∧ r.enabled ∧ r.cronExpression.isSome := by
  obtain ⟨id, -, hr⟩ := List.mem_filterMap.mp h
  have ⟨hg, hp⟩ := Option.filter_eq_some_iff.mp hr
  exact ⟨Table.mem_of_get? hg, by simpa using hp⟩

theorem cronSchedules_nodup {order : List Uuid} (h : order.Nodup) :
    ((s.cronSchedules order).map (·.id)).Nodup := by
  have hs : ((s.cronSchedules order).map (·.id)).Sublist order := by
    clear h
    induction order
    case nil => exact .slnil
    case cons id order hi =>
      simp only [cronSchedules, List.filterMap_cons]
      split
      case h_1 => exact hi.cons id
      case h_2 r hr =>
        obtain rfl : r.id = id := Table.key_of_get? (Option.filter_eq_some_iff.mp hr).left
        exact hi.cons_cons r.id
  exact h.sublist hs

end Store

-- What is known of a pass whatever else has happened since it read the schedules.
structure Pass.Sound (rt : CronRuntime) (s : Store) (p : Pass) : Prop where
  enabled : ∀ r ∈ p.records, r.enabled
  current : ∀ r ∈ p.records, ∃ r' ∈ s.schedules, r.Precedes r'
  nodup   : (p.records.map (·.id)).Nodup
  firing  : ∀ f ∈ p.firing, f.record.spec.cron = some f.cron ∧
    ∃ done, rt.calendar.dueCronBatch f.cron f.record.cursor p.now = .ok (done ++ f.due) ∧
      ∀ instant ∈ done, s.Fired f.record.id instant

namespace Pass.Sound

variable {rt : CronRuntime} {s s' : Store} {p : Pass} {now : Time} {todo : List Schedule}
  {firing : Option Firing} {f : Firing}

theorem later (h : p.Sound rt s) (hl : s.Later s') : p.Sound rt s' where
  enabled := h.enabled
  nodup   := h.nodup
  current r hr := by
    have ⟨r₁, hr₁, h₁⟩ := h.current r hr
    have ⟨r₂, hr₂, h₂⟩ := hl.schedules r₁ hr₁
    exact ⟨r₂, hr₂, h₁.trans h₂⟩
  firing f hf := by
    have ⟨hc, done, hd, hx⟩ := h.firing f hf
    exact ⟨hc, done, hd, fun o ho => hl.fired _ _ <| hx o ho⟩

theorem begun : (Pass.begun now).Sound rt s where
  enabled _ h := absurd h List.not_mem_nil
  current _ h := absurd h List.not_mem_nil
  nodup       := .nil
  firing f h  := absurd h <| Option.not_mem_none f

theorem of_read {order : List Uuid} (h : order.Nodup) :
    (Pass.working now (s.cronSchedules order) none).Sound rt s where
  enabled _ hr := (Store.mem_cronSchedules hr).right.left
  current r hr := ⟨r, (Store.mem_cronSchedules hr).left, .refl⟩
  nodup        := Store.cronSchedules_nodup h
  firing f hf  := absurd hf <| Option.not_mem_none f

-- A pass that knows fewer schedules.
theorem sublist {p' : Pass} (h : p.Sound rt s) (hs : p'.records.Sublist p.records)
    (hf : ∀ f ∈ p'.firing, f.record.spec.cron = some f.cron ∧
      ∃ done, rt.calendar.dueCronBatch f.cron f.record.cursor p'.now = .ok (done ++ f.due) ∧
        ∀ instant ∈ done, s.Fired f.record.id instant) : p'.Sound rt s where
  enabled r hr := h.enabled r <| hs.subset hr
  current r hr := h.current r <| hs.subset hr
  nodup        := h.nodup.sublist <| hs.map _
  firing       := hf

theorem fired {record cron next due} (hf : s.Fired record.id next)
    (h : (Pass.working now todo (some { record, cron, due := next :: due })).Sound rt s) :
    (Pass.working now todo (some { record, cron, due })).Sound rt s := by
  refine h.sublist (.refl _) ?_
  rintro _ ⟨⟩
  have ⟨hc, done, hd, hx⟩ := h.firing _ rfl
  refine ⟨hc, done ++ [next], ?_, List.forall_mem_append.mpr ⟨hx, by simpa using hf⟩⟩
  rw [List.append_assoc]
  exact hd

-- An occurrence that passes the fence was built from the schedule as it is.
theorem admitted {record cron next due r}
    (h : (Pass.working now todo (some { record, cron, due := next :: due })).Sound rt s)
    (hr : r ∈ s.schedules) (ha : Store.Admits r record cron) :
    (r.content = record.content ∧ Advances record.lastCronAt r.lastCronAt ∧ record.cursor ≤ r.cursor) ∧
      record.cursor < next ∧ next ≤ now := by
  have ⟨r', hr', hv⟩ := h.current record <| List.mem_append_left _ <| List.mem_singleton.mpr rfl
  obtain rfl : r' = r := Table.key_injOn hr' hr <| hv.id.trans ha.id.symm
  have ⟨_, done, hd, _⟩ := h.firing _ rfl
  exact ⟨hv.same ha.revision.le, Calendar.dueCronBatch_mem hd <| List.mem_append_right done List.mem_cons_self⟩

theorem createdAt_le {record cron next due r r'}
    (h : (Pass.working now todo (some { record, cron, due := next :: due })).Sound rt s)
    (hr : r ∈ s.schedules) (ha : Store.Admits r record cron) (hr' : r' ∈ s.schedules)
    (hi : r'.id = record.id) (hn : r'.lastCronAt = none) : r'.createdAt ≤ next := by
  obtain rfl : r' = r := Table.key_injOn hr' hr <| hi.trans ha.id.symm
  have ⟨⟨hc, _, hl⟩, hb, _⟩ := h.admitted hr ha
  -- The record has no cursor either: it is not ahead of the schedule.
  have hx : record.lastCronAt = none := by
    by_contra hx
    have ⟨t, ht⟩ := Option.ne_none_iff_exists'.mp hx
    have ⟨t', ht', _⟩ := (h.admitted hr ha).left.right.left t ht
    simp [hn] at ht'
  have hc : r'.createdAt = record.createdAt := by rw [content_eq hc]
  rw [hc]
  simpa [cursor, hx] using hb.le

end Pass.Sound

namespace CronState

variable {rt : CronRuntime} {σ σ' : CronState} {a : CronAction} {i : Nat}

-- What a step of a pass does to the store and to the pass.
inductive Continues (rt : CronRuntime) (σ : CronState) : Option Pass → Store → Option Pass → Prop
  | ended {p} : Continues rt σ p σ.store none
  | begun {p} : Continues rt σ p σ.store (some <| .begun σ.clock)
  | read {now order} (h : order.Perm (σ.store.schedules.rows.map (·.id))) :
      Continues rt σ (some <| .begun now) σ.store
        (some <| .working now (σ.store.cronSchedules order) none)
  | skipped {now record todo firing} :
      Continues rt σ (some <| .working now (record :: todo) firing) σ.store
        (some <| .working now todo none)
  | started {now record todo firing cron due} (hc : record.spec.cron = some cron)
      (hd : rt.calendar.dueCronBatch cron record.cursor now = .ok due) :
      Continues rt σ (some <| .working now (record :: todo) firing) σ.store
        (some <| .working now todo (some { record, cron, due }))
  | stopped {now todo firing} :
      Continues rt σ (some <| .working now todo firing) σ.store (some <| .working now todo none)
  | repeated {now todo record cron next due} (h : σ.store.Fired record.id next) :
      Continues rt σ (some <| .working now todo (some { record, cron, due := next :: due })) σ.store
        (some <| .working now todo (some { record, cron, due }))
  | inserted {now todo record cron next due s' r x} (hr : r ∈ σ.store.schedules)
      (ha : Store.Admits r record cron) (hn : ¬σ.store.Fired record.id next)
      (hs : σ.store.Advanced record.id next s') (hb : Store.Built rt s' record next x)
      (hx : ∀ id instant y, s'.OccursAt id instant y ↔
        σ.store.OccursAt id instant y ∨ id = record.id ∧ instant = next ∧ y = x) (ht : s'.Triggered) :
      Continues rt σ (some <| .working now todo (some { record, cron, due := next :: due })) s'
        (some <| .working now todo (some { record, cron, due }))

-- What an action can do.
inductive Moves (rt : CronRuntime) (σ : CronState) : CronAction → CronState → Prop
  | tick {now} : Moves rt σ (.tick now) { σ with clock := now }
  | exec {op} (hn : op.isCron = false) (ht : ∀ now ∈ op.reading, now = σ.clock) :
      Moves rt σ (.exec op) { σ with store := σ.store.exec op }
  | pass {a : CronAction} {i : Nat} {s' p} (h : σ.Continues rt (σ.passes i) s' p) :
      Moves rt σ a ({ σ with store := s' }.setPass i p)
  | crash : Moves rt σ .crash { σ with passes := fun _ => none }
  | idle {a : CronAction} : Moves rt σ a σ

theorem moves_of_pass {s' p p'} (hp : σ.passes i = p') (h : σ.Continues rt p' s' p)
    (he : σ' = { σ with store := s' }.setPass i p) : Moves rt σ a σ' := by
  subst hp he
  exact .pass h

theorem advance_moves {now todo firing} (hp : σ.passes i = some (.working now todo firing)) :
    Moves rt σ a (σ.advance rt i now todo) := by
  cases todo
  case nil => exact moves_of_pass hp .ended rfl
  case cons record todo =>
    simp only [advance]
    split
    case h_1 => exact moves_of_pass hp .skipped rfl
    case h_2 hc =>
      split
      case h_1 => exact moves_of_pass hp .ended rfl
      case h_2 hd => exact moves_of_pass hp (.started hc hd) rfl

theorem fire_moves {now todo record cron next due draw} (ht : σ.store.Triggered)
    (hp : σ.passes i = some (.working now todo (some { record, cron, due := next :: due }))) :
    Moves rt σ a (σ.fire rt i now todo record cron next due draw) := by
  simp only [fire]
  split
  case h_1 => exact moves_of_pass hp .ended rfl
  case h_2 hm =>
    cases Store.materializeOccurrence_occurrence ht hm
    exact moves_of_pass hp .stopped rfl
  case h_3 hm =>
    have ht' := Store.materializeOccurrence_triggered ht hm
    cases Store.materializeOccurrence_occurrence ht hm
    case repeated h => exact moves_of_pass hp (.repeated h) rfl
    case inserted hr ha hn hs hb hx => exact moves_of_pass hp (.inserted hr ha hn hs hb hx ht') rfl

theorem exec_moves (ht : σ.store.Triggered) (ha : σ.Enabled a) : Moves rt σ a (σ.exec rt a) := by
  cases a
  case tick => exact .tick
  case exec => exact .exec ha.left ha.right
  case begin => exact moves_of_pass rfl .begun rfl
  case read i order =>
    simp only [exec]
    split
    case h_1 hp => exact moves_of_pass hp (.read ha) rfl
    case h_2 => exact .idle
  case step i draw =>
    simp only [exec]
    split
    case h_1 hp => exact fire_moves ht hp
    case h_2 hp => exact advance_moves hp
    case h_3 => exact .idle
  case crash => exact .crash

-- What holds in every state, however the clock goes.
structure Sound (rt : CronRuntime) (σ : CronState) : Prop where
  triggered : σ.store.Triggered
  columns   : ∀ r ∈ σ.store.schedules, r.Columns
  passes    : ∀ i, ∀ p ∈ σ.passes i, p.Sound rt σ.store

namespace Sound

theorem initial : Sound rt .initial where
  triggered     := .empty
  columns _ h   := absurd h Table.not_mem_empty
  passes _ p hp := absurd hp <| Option.not_mem_none p

theorem setPass {s' : Store} {p : Option Pass} (h : σ.Sound rt) (ht : s'.Triggered)
    (hc : ∀ r ∈ s'.schedules, r.Columns) (hl : σ.store.Later s') (hp : ∀ p' ∈ p, p'.Sound rt s') :
    ({ σ with store := s' }.setPass i p).Sound rt where
  triggered := ht
  columns   := hc
  passes j p' hj := by
    by_cases he : j = i
    case pos =>
      subst he
      simp only [CronState.setPass, Function.update_self] at hj
      exact hp p' hj
    case neg =>
      simp only [CronState.setPass, Function.update_of_ne he] at hj
      exact h.passes j p' hj |>.later hl

theorem continues_later {s' : Store} {p : Option Pass} (h : σ.Sound rt)
    (hc : σ.Continues rt (σ.passes i) s' p) : σ.store.Later s' := by
  have hp := h.passes i
  generalize σ.passes i = old at hc hp
  cases hc
  case inserted hr ha hn hs hb hx ht =>
    exact hs.later (fun r hm => (hp _ rfl).createdAt_le hr ha hm) fun id instant ⟨y, hy⟩ =>
      ⟨y, hx id instant y |>.mpr <| .inl hy⟩
  all_goals exact .refl

theorem continues {s' : Store} {p : Option Pass} (h : σ.Sound rt)
    (hc : σ.Continues rt (σ.passes i) s' p) : ({ σ with store := s' }.setPass i p).Sound rt := by
  have keep {p : Option Pass} (hp : ∀ p' ∈ p, p'.Sound rt σ.store) :
      ({ σ with store := σ.store }.setPass i p).Sound rt :=
    h.setPass h.triggered h.columns .refl hp
  have hl := h.continues_later hc
  have hp := h.passes i
  generalize σ.passes i = old at hc hp
  cases hc
  case ended => exact keep fun p h => absurd h <| Option.not_mem_none p
  case begun => exact keep <| by simpa using Pass.Sound.begun
  case read ho =>
    have hn := ho.nodup_iff.mpr σ.store.schedules.nodup
    exact keep <| by simpa using Pass.Sound.of_read hn
  case skipped now record todo firing =>
    have hs : (Pass.working now todo none).records.Sublist
        (Pass.working now (record :: todo) firing).records := by
      simp only [Pass.records, Option.toList_none, List.map_nil, List.nil_append]
      exact (List.sublist_cons_self _ _).trans (List.sublist_append_right _ _)
    exact keep <| by simpa using (hp _ rfl).sublist hs fun f h => absurd h <| Option.not_mem_none f
  case started now record todo firing cron due hx hd =>
    have hs : (Pass.working now todo (some { record, cron, due })).records.Sublist
        (Pass.working now (record :: todo) firing).records :=
      List.sublist_append_right _ _
    refine keep ?_
    rintro _ ⟨⟩
    refine (hp _ rfl).sublist hs ?_
    rintro _ ⟨⟩
    exact ⟨hx, [], hd, fun _ h => absurd h List.not_mem_nil⟩
  case stopped now todo firing =>
    have hs : (Pass.working now todo none).records.Sublist (Pass.working now todo firing).records :=
      List.sublist_append_right _ _
    exact keep <| by simpa using (hp _ rfl).sublist hs fun f h => absurd h <| Option.not_mem_none f
  case repeated now todo record cron next due hf =>
    refine keep ?_
    rintro _ ⟨⟩
    exact (hp _ rfl).fired hf
  case inserted now todo record cron next due r x hr ha hn hs hb hx ht =>
    have hf : s'.Fired record.id next := ⟨x, hx _ _ _ |>.mpr <| .inr ⟨rfl, rfl, rfl⟩⟩
    refine h.setPass ht ?_ hl ?_
    case refine_1 =>
      intro r' hr'
      obtain ⟨r, hr, rfl⟩ := hs.exists_left hr'
      have hc := h.columns r hr
      split
      case isTrue => exact ⟨hc.enabled, hc.expression, hc.timezone⟩
      case isFalse => exact hc
    case refine_2 =>
      rintro _ ⟨⟩
      exact ((hp _ rfl).later hl).fired hf

theorem moves (h : σ.Sound rt) (hm : Moves rt σ a σ') : σ'.Sound rt := by
  cases hm
  case tick => exact ⟨h.triggered, h.columns, h.passes⟩
  case exec op hn ht =>
    have he := Store.exec_edits hn ht h.columns
    have hf id instant : σ.store.Fired id instant → (σ.store.exec op).Fired id instant :=
      fun ⟨x, hx⟩ => ⟨x, Store.exec_occursAt h.triggered hn |>.mpr hx⟩
    constructor
    case triggered => exact h.triggered.exec <| Store.cronKey_eq_none hn
    case columns =>
      intro r' hr'
      rcases he.back r' hr' with ⟨r, hr, rfl | hx⟩ | ⟨-, hc⟩
      case inl.inl => exact h.columns r' hr
      case inl.inr => exact hx.columns
      case inr => exact hc
    case passes => exact fun i p hp => (h.passes i p hp).later <| he.later hf
  case pass i s' p hc => exact h.continues hc
  case crash => exact ⟨h.triggered, h.columns, fun _ p hp => absurd hp <| Option.not_mem_none p⟩
  case idle => exact h

theorem exec (h : σ.Sound rt) (ha : σ.Enabled a) : (σ.exec rt a).Sound rt :=
  h.moves <| exec_moves h.triggered ha

theorem of_reachable (h : (cronMachine rt).Reachable .initial σ) : σ.Sound rt :=
  h.invariant (fun _ _ h ha => h.exec ha) .initial

end Sound

end CronState

end Scheduler
