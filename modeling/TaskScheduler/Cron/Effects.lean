import TaskScheduler.Cron.Materialize

namespace Scheduler

namespace Schedule

variable {r r₁ r₂ r₃ : Schedule} {now : Time}

-- The columns beside the cursor.
def content (r : Schedule) : Schedule :=
  { r with lastCronAt := none }

def cronIdentity (r : Schedule) : Option String × Option String :=
  (r.cronExpression, r.cronTimezone)

-- A cursor that has been set does not move back.
def Advances (c₁ c₂ : Option Time) : Prop :=
  ∀ t₁ ∈ c₁, ∃ t₂ ∈ c₂, t₁ ≤ t₂

theorem Advances.refl {c : Option Time} : Advances c c :=
  fun t h => ⟨t, h, le_refl t⟩

theorem Advances.trans {c₁ c₂ c₃ : Option Time} (h₁ : Advances c₁ c₂) (h₂ : Advances c₂ c₃) :
    Advances c₁ c₃ := by
  intro t₁ ht₁
  have ⟨t₂, ht₂, hl₁⟩ := h₁ t₁ ht₁
  have ⟨t₃, ht₃, hl₂⟩ := h₂ t₂ ht₂
  exact ⟨t₃, ht₃, hl₁.trans hl₂⟩

theorem advances_latest {c : Option Time} {t : Time} : Advances c (Store.latest c t) := by
  intro t₁ h
  exact ⟨_, rfl, by simp [Option.mem_def.mp h]⟩

theorem le_latest {c : Option Time} {t : Time} : ∃ t' ∈ Store.latest c t, t ≤ t' := by
  cases c
  case none => exact ⟨t, rfl, le_refl t⟩
  case some t₀ => exact ⟨max t t₀, rfl, le_max_left t t₀⟩

-- The columns that the cron queries read agree with the specification.
structure Columns (r : Schedule) : Prop where
  enabled    : r.enabled = r.spec.enabled
  expression : r.cronExpression = r.spec.cron.map (·.expression)
  timezone   : r.cronTimezone = r.spec.cron.map (·.timezone)

-- `r₂` is a later version of `r₁`. Only the cursor moves without a new revision.
structure Precedes (r₁ r₂ : Schedule) : Prop where
  id      : r₂.id = r₁.id
  version : r₁.revision < r₂.revision ∨
    r₂.content = r₁.content ∧ Advances r₁.lastCronAt r₂.lastCronAt ∧ r₁.cursor ≤ r₂.cursor

theorem content_eq (h : r₂.content = r₁.content) : r₂ = { r₁ with lastCronAt := r₂.lastCronAt } := by
  have h : ({ r₂.content with lastCronAt := r₂.lastCronAt } : Schedule) =
      { r₁.content with lastCronAt := r₂.lastCronAt } := by rw [h]
  exact h

namespace Precedes

theorem refl : r.Precedes r :=
  ⟨rfl, .inr ⟨rfl, .refl, le_refl _⟩⟩

theorem trans (h₁ : r₁.Precedes r₂) (h₂ : r₂.Precedes r₃) : r₁.Precedes r₃ := by
  refine ⟨h₂.id.trans h₁.id, ?_⟩
  rcases h₁.version with hv₁ | ⟨hc₁, ha₁, hl₁⟩ <;> rcases h₂.version with hv₂ | ⟨hc₂, ha₂, hl₂⟩
  case inl.inl => exact .inl <| hv₁.trans hv₂
  case inl.inr =>
    rw [content_eq hc₂]
    exact .inl hv₁
  case inr.inl =>
    rw [content_eq hc₁] at hv₂
    exact .inl hv₂
  case inr.inr => exact .inr ⟨hc₂.trans hc₁, ha₁.trans ha₂, hl₁.trans hl₂⟩

theorem same (h : r₁.Precedes r₂) (hr : r₂.revision ≤ r₁.revision) :
    r₂.content = r₁.content ∧ Advances r₁.lastCronAt r₂.lastCronAt ∧ r₁.cursor ≤ r₂.cursor :=
  h.version.resolve_left hr.not_gt

end Precedes

-- What the transactions that change a schedule at `now` do to it.
structure Edited (now : Time) (r₁ r₂ : Schedule) : Prop where
  id        : r₂.id = r₁.id
  createdAt : r₂.createdAt = r₁.createdAt
  revision  : r₂.revision = r₁.revision + 1
  columns   : r₂.Columns
  -- The three rules of the cursor.
  changed   : r₂.cronIdentity ≠ r₁.cronIdentity → ∃ t ∈ r₂.lastCronAt, now ≤ t
  resumed   : r₁.enabled = false → r₂.enabled → r₂.cronExpression.isSome → ∃ t ∈ r₂.lastCronAt, now ≤ t
  advances  : r₂.cronIdentity = r₁.cronIdentity → Advances r₁.lastCronAt r₂.lastCronAt
  kept      : r₂.cronIdentity = r₁.cronIdentity → r₁.enabled ∨ r₂.enabled = false →
    r₂.lastCronAt = r₁.lastCronAt

theorem Edited.precedes (h : r₁.Edited now r₂) : r₁.Precedes r₂ :=
  ⟨h.id, .inl <| by rw [h.revision]; exact Int.lt_succ _⟩

end Schedule

namespace Store

open Schedule

variable {s s' s₁ : Store} {now : Time} {r r' : Schedule}

-- What a transaction at `now` can do to schedules.
structure Edits (now : Time) (s s' : Store) : Prop where
  forth : ∀ r ∈ s.schedules, ∃ r' ∈ s'.schedules, r' = r ∨ r.Edited now r'
  back  : ∀ r' ∈ s'.schedules, (∃ r ∈ s.schedules, r' = r ∨ r.Edited now r') ∨
    (∀ r ∈ s.schedules, r.id ≠ r'.id) ∧ r'.Columns

namespace Edits

theorem of_eq (h : s'.schedules = s.schedules) : s.Edits now s' where
  forth r hr := ⟨r, h ▸ hr, .inl rfl⟩
  back r hr  := .inl ⟨r, h ▸ hr, .inl rfl⟩

theorem of_update {p : Schedule → Bool} {f : Schedule → Schedule}
    (hs : s'.schedules.rows = s.schedules.rows.map fun r => if p r then f r else r)
    (h : ∀ r ∈ s.schedules, p r → r.Edited now (f r)) : s.Edits now s' := by
  have hr r (hm : r ∈ s.schedules) : (if p r then f r else r) = r ∨ r.Edited now (if p r then f r else r) := by
    split
    case isTrue hp => exact .inr <| h r hm hp
    case isFalse => exact .inl rfl
  constructor
  case forth =>
    intro r hm
    refine ⟨_, ?_, hr r hm⟩
    rw [← Table.mem_rows, hs]
    exact List.mem_map_of_mem hm
  case back =>
    intro r' hm
    rw [← Table.mem_rows, hs] at hm
    obtain ⟨r, hn, rfl⟩ := List.mem_map.mp hm
    exact .inl ⟨r, hn, hr r hn⟩

theorem of_insert {r₀ : Schedule} (h : s.schedules.insert r₀ = some s'.schedules) (hc : r₀.Columns) :
    s.Edits now s' := by
  constructor
  case forth =>
    intro r hr
    exact ⟨r, Table.mem_of_insert h |>.mpr <| .inl hr, .inl rfl⟩
  case back =>
    intro r' hr
    rcases Table.mem_of_insert h |>.mp hr with hr | rfl
    case inl => exact .inl ⟨r', hr, .inl rfl⟩
    case inr => exact .inr ⟨Table.get?_eq_none.mp <| Table.get?_key_of_insert h, hc⟩

end Edits

theorem createSchedule_edits {new} : s.Edits now ((s.createSchedule new now).persisted s) := by
  simp only [createSchedule]
  repeat' split
  case _ => exact .of_eq rfl
  case _ => exact .of_eq rfl
  case _ hi => exact .of_insert hi ⟨rfl, rfl, rfl⟩

theorem updateSchedule_edits {id revision spec snapshot} :
    s.Edits now ((s.updateSchedule id revision spec snapshot now).persisted s) := by
  simp only [updateSchedule]
  split
  case isFalse => exact .of_eq rfl
  case isTrue =>
    refine .of_update rfl fun r _ _ => ?_
    constructor
    case id | createdAt | revision => rfl
    case columns => exact ⟨rfl, rfl, rfl⟩
    case changed =>
      intro hn
      have hn : ¬(r.cronExpression = spec.cron.map (·.expression) ∧
          r.cronTimezone = spec.cron.map (·.timezone)) := fun h => hn (by simp [cronIdentity, h])
      simp only
      split
      case isTrue => exact le_latest
      case isFalse => exact ⟨now, by simp [hn], le_refl now⟩
    case resumed =>
      intro hd he hc
      simp only at he hc
      simp only [hd, he, hc, Bool.not_false, Bool.and_self, if_true]
      exact le_latest
    case advances =>
      intro hi
      simp only [cronIdentity, Prod.mk.injEq] at hi
      simp only [← hi, decide_true, Bool.and_self, Bool.not_true, Bool.false_eq_true, if_false]
      split
      case isTrue => exact advances_latest
      case isFalse => exact .refl
    case kept =>
      intro hi he
      simp only [cronIdentity, Prod.mk.injEq] at hi
      have hn : (!r.enabled && spec.enabled) = false := by
        rcases he with he | he
        case inl => simp [he]
        case inr => simp [show spec.enabled = false from he]
      simp [← hi, hn]

theorem setScheduleEnabled_edits {id enabled} (hc : ∀ r ∈ s.schedules, r.Columns) :
    s.Edits now ((s.setScheduleEnabled id enabled now).persisted s) := by
  simp only [setScheduleEnabled]
  split
  case h_1 => exact .of_eq rfl
  case h_2 row hg =>
    split
    case isTrue => exact .of_eq rfl
    case isFalse hn =>
      refine .of_update rfl fun r hm hp => ?_
      obtain rfl : r = row := Table.key_injOn hm (Table.mem_of_get? hg) <|
        (of_decide_eq_true hp).trans (Table.key_of_get? hg).symm
      have hx := hc r hm
      constructor
      case id | createdAt | revision => rfl
      case columns => exact ⟨rfl, hx.expression, hx.timezone⟩
      case changed => exact fun hn => absurd rfl hn
      case resumed =>
        intro _ he hs
        simp only at he hs
        have hs' : r.spec.cron.isSome := by simpa [hx.expression] using hs
        simp only [he, hs, hs', Bool.and_self, if_true]
        exact le_latest
      case advances =>
        intro _
        simp only
        split
        case isTrue => exact advances_latest
        case isFalse => exact .refl
      case kept =>
        intro _ he
        have he : enabled = false := by
          rcases he with he | he
          case inl => simpa [he] using Ne.symm hn
          case inr => exact he
        simp [he]

theorem rotateWebhook_edits {id publicId secretHash} (hc : ∀ r ∈ s.schedules, r.Columns) :
    s.Edits now ((s.rotateWebhook id publicId secretHash).persisted s) := by
  simp only [rotateWebhook]
  repeat' split
  case _ | _ => exact .of_eq rfl
  case _ =>
    refine .of_update rfl fun r hm _ => ?_
    constructor
    case id | createdAt | revision => rfl
    case columns => exact ⟨hc r hm |>.enabled, hc r hm |>.expression, hc r hm |>.timezone⟩
    case changed => exact fun hn => absurd rfl hn
    case resumed => exact fun hd he => by simp [hd] at he
    case advances => exact fun _ => .refl
    case kept => exact fun _ _ => rfl

theorem exec_edits {op : Op} (hn : op.isCron = false) (ht : ∀ t ∈ op.reading, t = now)
    (hc : ∀ r ∈ s.schedules, r.Columns) : s.Edits now (s.exec op) := by
  by_cases hw : .schedules ∈ op.writes
  case neg => exact .of_eq <| (s.exec_frame op).schedules hw
  case pos =>
    cases op
    case createSchedule => exact ht _ rfl ▸ createSchedule_edits
    case updateSchedule => exact ht _ rfl ▸ updateSchedule_edits
    case setScheduleEnabled => exact ht _ rfl ▸ setScheduleEnabled_edits hc
    case rotateWebhook => exact rotateWebhook_edits hc
    case advanceCronCursor | createCronOccurrence | createCronBatch => simp [Op.isCron] at hn
    all_goals simp [Op.writes, Op.writes.concluding] at hw

section Fired

variable {op : Op} {id : Uuid} {instant : Time} {x y : TriggerTarget}

-- The schedule has fired at the instant.
def Fired (s : Store) (id : Uuid) (instant : Time) : Prop :=
  ∃ x, s.OccursAt id instant x

-- The identities that come with a transaction outside of passes are not those of cron occurrences.
theorem exec_identities (hn : op.isCron = false) {t : TriggerIdentity}
    (ht : t ∈ (s.exec op).triggerIdentities) (hk : t.triggerKind = .cron) : t ∈ s.triggerIdentities := by
  by_cases hw : .triggerIdentities ∈ op.writes
  case neg => exact (s.exec_frame op).triggerIdentities hw ▸ ht
  case pos =>
    have hold {u : TriggerIdentity} {s₁ : Store} (hi : s.insertTriggerIdentity u = .ok s₁)
        (hu : u.triggerKind ≠ .cron) (ht : t ∈ s₁.triggerIdentities) : t ∈ s.triggerIdentities := by
      obtain ⟨_, hn, rfl⟩ := insertTriggerIdentity_eq hi
      rcases Table.mem_of_insert hn |>.mp ht with ht | rfl
      case inl => exact ht
      case inr => exact absurd hk hu
    cases op
    case createRun =>
      simp only [exec, createRun] at ht
      repeat' split at ht
      case _ => rwa [existingTarget_persisted] at ht
      case _ => exact ht
      case _ => rwa [existingRun_persisted] at ht
      case _ => exact ht
      case _ hi _ _ hr =>
        obtain ⟨_, -, rfl⟩ := insertRun_eq hr
        exact hold hi (of_decide_eq_false hn) ht
    case createBatch =>
      simp only [exec, createBatch] at ht
      repeat' split at ht
      any_goals exact ht
      case _ hi _ _ hb =>
        obtain ⟨_, -, rfl⟩ := insertBatch_eq hb
        exact hold hi (of_decide_eq_false hn) ht
    case retriggerBatchSnapshot =>
      simp only [exec, retriggerBatchSnapshot] at ht
      repeat' split at ht
      any_goals exact ht
      case _ hi _ _ hb =>
        obtain ⟨_, -, rfl⟩ := insertBatch_eq hb
        exact hold hi (by rintro ⟨⟩) ht
    case createCronOccurrence | createCronBatch => simp [Op.isCron] at hn
    all_goals simp [Op.writes, Op.writes.concluding] at hw

theorem cronKey_eq_none (hn : op.isCron = false) : op.cronKey = none := by
  cases op
  case createCronOccurrence => simp [Op.isCron] at hn
  all_goals rfl

theorem exec_occursAt (h : s.Triggered) (hn : op.isCron = false) :
    (s.exec op).OccursAt id instant x ↔ s.OccursAt id instant x := by
  have hk := cronKey_eq_none hn
  rw [h.occursAt_iff, (h.exec hk).occursAt_iff]
  constructor
  case mp =>
    intro ⟨t, ht, hx, hs, hc, ha⟩
    exact ⟨t, exec_identities hn ht hc, hx, hs, hc, ha⟩
  case mpr =>
    intro ⟨t, ht, hx⟩
    exact ⟨t, (s.exec_fires hk).mem_triggerIdentities ht, hx⟩

end Fired

section Occurrence

variable {rt : CronRuntime} {record : Schedule} {cron : CronSpec} {next : Time} {draw : Draw} {b : Bool}

-- The schedule is enabled and still as the record says.
structure Admits (r record : Schedule) (cron : CronSpec) : Prop where
  id         : r.id = record.id
  revision   : r.revision = record.revision
  enabled    : r.enabled
  expression : r.cronExpression = some cron.expression
  timezone   : r.cronTimezone = some cron.timezone

-- The cursor of one schedule moves on to an instant.
def Advanced (s : Store) (id : Uuid) (next : Time) (s' : Store) : Prop :=
  s'.schedules.rows =
    s.schedules.rows.map fun r => if r.id = id then { r with lastCronAt := latest r.lastCronAt next } else r

theorem fence_some (h : s.fence record.id record.revision cron next = some s₁) :
    (∃ r ∈ s.schedules, Admits r record cron) ∧ s.Advanced record.id next s₁ := by
  simp only [fence] at h
  split at h
  case isFalse => contradiction
  case isTrue ha =>
    cases h
    obtain ⟨r, hr, ha⟩ := List.any_eq_true.mp ha
    simp only [Bool.and_eq_true, decide_eq_true_eq] at ha
    obtain ⟨⟨⟨⟨hi, hv⟩, he⟩, hx⟩, ht⟩ := ha
    refine ⟨⟨r, hr, hi, hv, he, hx, ht⟩, List.map_congr_left fun r' hr' => ?_⟩
    by_cases hi' : r'.id = record.id
    case neg => simp [hi']
    case pos =>
      obtain rfl : r' = r := Table.key_injOn hr' hr <| hi'.trans hi.symm
      simp [hi, hv, he, hx, ht]

theorem fence_none (h : s.fence record.id record.revision cron next = none) :
    ∀ r ∈ s.schedules, ¬Admits r record cron := by
  intro r hr ha
  simp only [fence] at h
  split at h
  case isTrue => contradiction
  case isFalse hn =>
    refine hn <| List.any_eq_true.mpr ⟨r, hr, ?_⟩
    simp [ha.id, ha.revision, ha.enabled, ha.expression, ha.timezone]

-- The run or batch was built from the schedule.
inductive Built (rt : CronRuntime) (s : Store) (schedule : Schedule) (next : Time) : TriggerTarget → Prop
  | run {new : NewRun} {now : Time} (hc : schedule.spec.parameterCollection.isSome = false)
      (h : rt.buildRunFromSchedule schedule (.object []) .cron next none new.id = .ok new)
      (hm : new.row now ∈ s.runs) : Built rt s schedule next (.run new.id)
  | batch {new : NewBatch} {triggerId : Uuid} {now : Time} (hc : schedule.spec.parameterCollection.isSome)
      (h : rt.buildCronBatch schedule next new.id = .ok new)
      (hm : new.row triggerId now ∈ s.batches) : Built rt s schedule next (.batch new.id)

-- What a round of the inner loop can do if it does not fail.
inductive Occurrence (rt : CronRuntime) (s : Store) (record : Schedule) (cron : CronSpec) (next : Time) :
    Bool → Store → Prop
  | stale (h : ∀ r ∈ s.schedules, ¬Admits r record cron) : Occurrence rt s record cron next false s
  | repeated (h : s.Fired record.id next) : Occurrence rt s record cron next true s
  | inserted {s' : Store} {r : Schedule} {x : TriggerTarget} (hr : r ∈ s.schedules)
      (ha : Admits r record cron) (hn : ¬s.Fired record.id next) (hs : s.Advanced record.id next s')
      (hb : Built rt s' record next x)
      (hx : ∀ id instant y, s'.OccursAt id instant y ↔
        s.OccursAt id instant y ∨ id = record.id ∧ instant = next ∧ y = x) :
      Occurrence rt s record cron next true s'

theorem Occurrence.of_identifies {r : Schedule} {t : TriggerIdentity} (h : s.Triggered) (h' : s'.Triggered)
    (hr : r ∈ s.schedules) (ha : Admits r record cron) (hs : s.Advanced record.id next s')
    (ht : s.Identifies t s') (hk : t.triggerKind = .cron) (hi : t.scheduleId = record.id)
    (hn : t.scheduledAt = next) (hb : Built rt s' record next t.target) :
    Occurrence rt s record cron next true s' := by
  refine .inserted hr ha ?_ hs hb fun id instant y => ?_
  case refine_1 =>
    intro ⟨x, hx⟩
    exact h.not_identifies ht rfl <| .inr ⟨hk, hi ▸ hn ▸ hx⟩
  case refine_2 =>
    rw [h.occursAt_iff, h'.occursAt_iff]
    constructor
    case mp =>
      intro ⟨u, hu, hy, hs, hc, ha⟩
      rcases Table.mem_of_insert ht.insert |>.mp hu with hu | rfl
      case inl => exact .inl ⟨u, hu, hy, hs, hc, ha⟩
      case inr => exact .inr ⟨hs.symm.trans hi, ha.symm.trans hn, hy.symm⟩
    case mpr =>
      rintro (⟨u, hu, hy⟩ | ⟨rfl, rfl, rfl⟩)
      case inl => exact ⟨u, Table.mem_of_insert ht.insert |>.mpr <| .inl hu, hy⟩
      case inr => exact ⟨t, Table.mem_of_insert ht.insert |>.mpr <| .inr rfl, rfl, hi, hk, hn⟩

theorem buildRunFromSchedule_fields {overrides kind key id} {new : NewRun}
    (h : rt.buildRunFromSchedule record overrides kind next key id = .ok new) :
    new.id = id ∧ new.scheduleId = record.id ∧ new.triggerKind = kind ∧ new.scheduledAt = next ∧
      new.idempotencyKey = key := by
  simp only [CronRuntime.buildRunFromSchedule] at h
  repeat' split at h
  all_goals cases h
  exact ⟨rfl, rfl, rfl, rfl, rfl⟩

theorem buildCronBatch_fields {id} {new : NewBatch} (h : rt.buildCronBatch record next id = .ok new) :
    new.id = id ∧ new.scheduleId = record.id ∧ new.triggerKind = .cron ∧ new.scheduledAt = next ∧
      new.idempotencyKey = none := by
  simp only [CronRuntime.buildCronBatch] at h
  repeat' split at h
  all_goals cases h
  exact ⟨rfl, rfl, rfl, rfl, rfl⟩

-- Whether the inner loop goes on.
def isApplied : CronOccurrenceResult → Bool
  | .applied _     => true
  | .staleSchedule => false

def isAppliedBatch : CronBatchOccurrenceResult → Bool
  | .applied _     => true
  | .staleSchedule => false

theorem createCronOccurrence_occurrence {new : NewRun} {triggerId result} (h : s.Triggered)
    (hp : record.spec.parameterCollection.isSome = false)
    (hb : rt.buildRunFromSchedule record (.object []) .cron next none new.id = .ok new)
    (hc : s.createCronOccurrence new record.revision cron triggerId now = .ok (result, s')) :
    Occurrence rt s record cron next (isApplied result) s' := by
  obtain ⟨_, hi, hk, hn, hy⟩ := buildRunFromSchedule_fields hb
  have h' : s'.Triggered := by
    have hx : (s.exec <| .createCronOccurrence new record.revision cron triggerId now).Triggered := h.exec hy
    simpa [exec, hc] using hx
  simp only [createCronOccurrence, hi, hn] at hc
  repeat' split at hc
  all_goals cases hc
  case _ hf => exact .stale <| fence_none hf
  case _ ht _ _ hr =>
    exact .repeated ⟨_, triggerTargetForCron_occursAt h ht⟩
  -- The run of the occurrence would have an identity already.
  case _ hf _ _ _ run ht _ hx =>
    obtain ⟨_, rfl⟩ := fence_eq hf
    have hi := Identifies.of_ok ht rfl
    obtain ⟨_, -, rfl⟩ := insertTriggerIdentity_eq ht
    have hm := List.mem_of_find?_eq_some hx
    have hx := List.find?_some hx
    simp only [Bool.and_eq_true, decide_eq_true_eq] at hx
    refine (h.not_identifies hi rfl (x := .run run.id) <| .inr ⟨rfl, ?_⟩).elim
    exact ⟨run, hm, rfl, hx.left.left, hx.right, hx.left.right⟩
  case _ hf _ _ ht _ _ hr =>
    obtain ⟨⟨r, hr', ha⟩, hs⟩ := fence_some hf
    have hi' := Identifies.of_ok ht rfl
    obtain ⟨_, rfl⟩ := fence_eq hf
    obtain ⟨_, -, rfl⟩ := insertTriggerIdentity_eq ht
    obtain ⟨_, hm, rfl⟩ := insertRun_eq hr
    exact .of_identifies h h' hr' ha hs ⟨hi'.apart, hi'.insert⟩ rfl rfl rfl <| .run hp hb <|
      Table.mem_of_insert hm |>.mpr <| .inr rfl

theorem createCronBatch_occurrence {new : NewBatch} {triggerId result} (h : s.Triggered)
    (hp : record.spec.parameterCollection.isSome)
    (hb : rt.buildCronBatch record next new.id = .ok new)
    (hc : s.createCronBatch new record.revision cron triggerId now = .ok (result, s')) :
    Occurrence rt s record cron next (isAppliedBatch result) s' := by
  obtain ⟨_, hi, hk, hn, hy⟩ := buildCronBatch_fields hb
  have h' : s'.Triggered := by
    have hx : (s.exec <| .createCronBatch new record.revision cron triggerId now).Triggered := h.exec rfl
    simpa [exec, hc] using hx
  simp only [createCronBatch, hi, hn] at hc
  repeat' split at hc
  all_goals cases hc
  case _ hf => exact .stale <| fence_none hf
  case _ hx =>
    obtain ⟨_, hx⟩ := findBatchForTrigger_taken h (fun _ => rfl) hx
    rcases hx with ⟨_, hx, -⟩ | ⟨-, hx⟩
    case inl => contradiction
    case inr => exact .repeated ⟨_, hx⟩
  case _ hf _ _ ht _ _ hr =>
    obtain ⟨⟨r, hr', ha⟩, hs⟩ := fence_some hf
    have hi' := Identifies.of_ok ht rfl
    obtain ⟨_, rfl⟩ := fence_eq hf
    obtain ⟨_, -, rfl⟩ := insertTriggerIdentity_eq ht
    obtain ⟨_, hm, rfl⟩ := insertBatch_eq hr
    exact .of_identifies h h' hr' ha hs ⟨hi'.apart, hi'.insert⟩ rfl rfl rfl <| .batch hp hb <|
      Table.mem_of_insert hm |>.mpr <| .inr rfl

theorem materializeOccurrence_occurrence (h : s.Triggered)
    (hm : s.materializeOccurrence rt record cron next draw = .ok (b, s')) :
    Occurrence rt s record cron next b s' := by
  simp only [materializeOccurrence] at hm
  split at hm
  case isTrue hp =>
    split at hm
    case h_1 => contradiction
    case h_2 new hb =>
      have hi := (buildCronBatch_fields hb).left
      split at hm
      all_goals cases hm
      case h_2 hc => exact createCronBatch_occurrence h hp (hi ▸ hb) hc
      case h_3 hc => exact createCronBatch_occurrence h hp (hi ▸ hb) hc
  case isFalse hp =>
    have hp := Bool.not_eq_true _ |>.mp hp
    split at hm
    case h_1 => contradiction
    case h_2 new hb =>
      have hi := (buildRunFromSchedule_fields hb).left
      split at hm
      all_goals cases hm
      case h_2 hc => exact createCronOccurrence_occurrence h hp (hi ▸ hb) hc
      case h_3 hc => exact createCronOccurrence_occurrence h hp (hi ▸ hb) hc

theorem materializeOccurrence_triggered (h : s.Triggered)
    (hm : s.materializeOccurrence rt record cron next draw = .ok (b, s')) : s'.Triggered := by
  simp only [materializeOccurrence] at hm
  split at hm
  case isTrue =>
    split at hm
    case h_1 => contradiction
    case h_2 new hb =>
      have hx : (s.exec <| .createCronBatch new record.revision cron draw.triggerId draw.now).Triggered :=
        h.exec rfl
      split at hm
      all_goals cases hm
      all_goals case _ hc => simpa [exec, hc] using hx
  case isFalse =>
    split at hm
    case h_1 => contradiction
    case h_2 new hb =>
      have hk := (buildRunFromSchedule_fields hb).right.right.right.right
      have hx : (s.exec <| .createCronOccurrence new record.revision cron draw.triggerId draw.now).Triggered :=
        h.exec hk
      split at hm
      all_goals cases hm
      all_goals case _ hc => simpa [exec, hc] using hx

end Occurrence

end Store

end Scheduler
