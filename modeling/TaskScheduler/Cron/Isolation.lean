import TaskScheduler.Cron.CatchUp

namespace Scheduler

open Schedule

namespace CronRuntime

variable {rt : CronRuntime} {q : Schedule} {cron : CronSpec} {next cursor now : Time} {id : Uuid}

-- The schedule was accepted, but no run can be built from what was saved with it.
def Unresolvable (rt : CronRuntime) (q : Schedule) : Prop :=
  q.spec.parameterCollection.isSome = false ∧ ∃ resolved message, q.encryptedSnapshot = some resolved ∧
    rt.resolveSnapshot resolved resolved.baseParameters = .error message

-- The occurrences of the schedule can be built.
def Builds (rt : CronRuntime) (q : Schedule) : Prop :=
  ∀ next id, if q.spec.parameterCollection.isSome then ∃ new, rt.buildCronBatch q next id = .ok new
    else ∃ new, rt.buildRunFromSchedule q (.object []) .cron next none id = .ok new

namespace Accepts

variable (h : rt.Accepts q)
include h

theorem resolved : ∃ resolved, q.encryptedSnapshot = some resolved ∧ resolved.baseParameters.isObject := by
  obtain ⟨-, blueprint, parameters, h⟩ := h
  simp only [resolveAndEncrypt] at h
  repeat' split at h
  case _ | _ | _ => contradiction
  case _ hp _ _ _ _ => exact ⟨_, (Except.ok.inj h).symm, by simpa using hp⟩
  case _ hp _ => exact ⟨_, (Except.ok.inj h).symm, by simpa using hp⟩

theorem due (hc : q.spec.cron = some cron) : ∃ due, rt.calendar.dueCronBatch cron cursor now = .ok due := by
  have hv := h.left
  simp only [validateScheduleSpec] at hv
  repeat' split at hv
  case _ | _ => contradiction
  case _ =>
    have hv : rt.calendar.invalid cron = none := by simpa [hc] using hv
    simp [Calendar.dueCronBatch, Calendar.nextOccurrences, hv, Except.map]

theorem batch (hp : q.spec.parameterCollection.isSome) :
    ∃ new, rt.buildCronBatch q next id = .ok new ∧ new.scheduleRevision = q.revision ∧
      validateBatchLimits new = none := by
  have ⟨resolved, hr, _⟩ := h.resolved
  have ⟨collection, hc⟩ := Option.isSome_iff_exists.mp hp
  have hv := h.left
  simp only [validateScheduleSpec] at hv
  repeat' split at hv
  case _ | _ => contradiction
  case _ hl =>
    simp only [hc, Option.bind_some, validateCollection] at hl
    simp only [buildCronBatch, hc, hr, Except.ok.injEq, exists_eq_left', true_and]
    repeat' split at hl
    any_goals contradiction
    simp_all [validateBatchLimits]

theorem run (hp : q.spec.parameterCollection.isSome = false) (he : q.spec.enabled) :
    (∃ new, rt.buildRunFromSchedule q (.object []) .cron next none id = .ok new) ↔ ¬rt.Unresolvable q := by
  have ⟨resolved, hr, ho⟩ := h.resolved
  simp only [buildRunFromSchedule, he, hr, mergeParameters_empty ho, Unresolvable, hp]
  cases hs : rt.resolveSnapshot resolved resolved.baseParameters
  case error message => simpa using ⟨message, hs⟩
  case ok snapshot => simp [hs]

theorem builds_iff (he : q.spec.enabled) : rt.Builds q ↔ ¬rt.Unresolvable q := by
  cases hp : q.spec.parameterCollection.isSome
  case false => simp [Builds, hp, h.run hp he]
  case true =>
    have hu : ¬rt.Unresolvable q := by simp [Unresolvable, hp]
    simp only [Builds, hp, if_true, hu, not_false_eq_true, iff_true]
    exact fun next id => have ⟨new, hn, _⟩ := h.batch hp; ⟨new, hn⟩

end Accepts

end CronRuntime

namespace Store

variable {rt : CronRuntime} {s s' : Store} {record q : Schedule} {cron : CronSpec} {next now : Time}
  {triggerId : Uuid} {t : TriggerIdentity}

-- The occurrence is there, but as a batch for a schedule without a collection or the other way around.
def Conflicts (s : Store) (q : Schedule) (instant : Time) : Prop :=
  ∃ x, s.OccursAt q.id instant x ∧
    match x with
    | .run _   => q.spec.parameterCollection.isSome = true
    | .batch _ => q.spec.parameterCollection.isSome = false

-- The identifiers are not in use.
structure Fresh (s : Store) (id triggerId : Uuid) : Prop where
  trigger : ∀ t ∈ s.triggerIdentities, t.id ≠ triggerId
  run     : ∀ r ∈ s.runs, r.id ≠ id
  batch   : ∀ b ∈ s.batches, b.id ≠ id

theorem fence_of_admits (ha : ∃ r ∈ s.schedules, Admits r record cron) :
    ∃ s₁, s.fence record.id record.revision cron next = some s₁ := by
  have ⟨r, hr, ha⟩ := ha
  refine Option.ne_none_iff_exists'.mp fun hn => ?_
  exact fence_none hn r hr ha

theorem fence_keeps {s₁ : Store} (h : s.fence record.id record.revision cron next = some s₁) :
    s₁.triggerIdentities = s.triggerIdentities ∧ s₁.runs = s.runs ∧ s₁.batches = s.batches := by
  obtain ⟨_, rfl⟩ := fence_eq h
  exact ⟨rfl, rfl, rfl⟩

theorem insertTriggerIdentity_ok (hc : ∀ u ∈ s.triggerIdentities, t.Conflicts u = false)
    (hi : ∀ u ∈ s.triggerIdentities, u.id ≠ t.id) (hs : ∃ r ∈ s.schedules, r.id = t.scheduleId) :
    ∃ s', s.insertTriggerIdentity t = .ok s' := by
  have hn : s.triggerIdentities.rows.any (t.Conflicts ·) = false := List.any_eq_false.mpr fun u hu => by
    simpa using hc u hu
  have ⟨_, ht⟩ := Table.insert_isSome <| Table.get?_eq_none (k := Keyed.key t).mpr hi
  have ⟨r, hr, hk⟩ := hs
  have hg : s.schedules.get? t.scheduleId = some r := Table.get?_eq_some.mpr ⟨hr, hk⟩
  simp [insertTriggerIdentity, hn, ht, hg]

theorem insertTriggerIdentity_taken {u : TriggerIdentity} (hu : u ∈ s.triggerIdentities)
    (hc : t.Conflicts u) : s.insertTriggerIdentity t = .error .uniqueViolation := by
  have hn : s.triggerIdentities.rows.any (t.Conflicts ·) := List.any_eq_true.mpr ⟨u, hu, hc⟩
  simp [insertTriggerIdentity, hn]

theorem insertRun_ok {r : Run} (hc : ∀ r' ∈ s.runs, r.Conflicts r' = false) (hi : ∀ r' ∈ s.runs, r'.id ≠ r.id)
    (hs : ∃ q ∈ s.schedules, q.id = r.scheduleId) : ∃ s', s.insertRun r = .ok s' := by
  have hn : s.runs.rows.any (r.Conflicts ·) = false := List.any_eq_false.mpr fun r' hr => by
    simpa using hc r' hr
  have ⟨_, ht⟩ := Table.insert_isSome <| Table.get?_eq_none (k := Keyed.key r).mpr hi
  have ⟨q, hq, hk⟩ := hs
  have hg : s.schedules.get? r.scheduleId = some q := Table.get?_eq_some.mpr ⟨hq, hk⟩
  simp [insertRun, hn, ht, hg]

theorem insertBatch_ok {new : NewBatch} (ht : ∀ b ∈ s.batches, b.triggerIdentityId ≠ triggerId)
    (hi : ∀ b ∈ s.batches, b.id ≠ new.id) : ∃ s', s.insertBatch new triggerId now = .ok s' := by
  have hn : s.batches.rows.any (·.triggerIdentityId = triggerId) = false := List.any_eq_false.mpr fun b hb => by
    simpa using ht b hb
  have ⟨_, ht⟩ := Table.insert_isSome <| Table.get?_eq_none (k := Keyed.key (new.row triggerId now)).mpr hi
  simp [insertBatch, hn, ht]

section Outcome

variable {x : TriggerTarget} {id : Uuid}

-- An identity of a new target at a new instant stands in no other's way.
theorem Triggered.apart_of_fresh (h : s.Triggered) (hf : s.Fresh id triggerId) (hk : t.triggerKind = .cron)
    (hy : t.idempotencyKey = none) (hn : ¬s.Fired t.scheduleId t.scheduledAt)
    (ht : t.target = .run id ∨ t.target = .batch id) : ∀ u ∈ s.triggerIdentities, t.Conflicts u = false := by
  intro u hu
  have hx : t.target ≠ u.target := by
    intro he
    rcases h.target u hu with ⟨r, hr, ho⟩ | ⟨b, hb, ho⟩
    case inl =>
      rw [he, ho.target] at ht
      rcases ht with ht | ht
      case inl => exact hf.run r hr <| TriggerTarget.run.inj ht
      case inr => contradiction
    case inr =>
      rw [he, ho.target] at ht
      rcases ht with ht | ht
      case inl => contradiction
      case inr => exact hf.batch b hb <| TriggerTarget.batch.inj ht
  have hc : ¬(u.triggerKind = .cron ∧ t.scheduleId = u.scheduleId ∧ t.scheduledAt = u.scheduledAt) := by
    intro ⟨hk, hs, ha⟩
    exact hn ⟨u.target, h.occursAt_iff.mpr ⟨u, hu, rfl, hs.symm, hk, ha.symm⟩⟩
  simp only [TriggerIdentity.Conflicts, hk, hy, hx]
  simp
  tauto

theorem Triggered.taken (h : s.Triggered) (hx : s.OccursAt t.scheduleId t.scheduledAt x)
    (hk : t.triggerKind = .cron) : ∃ u ∈ s.triggerIdentities, u.target = x ∧ u.scheduleId = t.scheduleId ∧
      u.triggerKind = .cron ∧ u.scheduledAt = t.scheduledAt ∧ t.Conflicts u := by
  obtain ⟨u, hu, ht, hs, hc, ha⟩ := h.occursAt_iff.mp hx
  exact ⟨u, hu, ht, hs, hc, ha, by simp [TriggerIdentity.Conflicts, hk, hc, hs, ha]⟩

theorem triggerTargetForCron_eq (h : s.Triggered) (hx : s.OccursAt id next x) :
    s.triggerTargetForCron id next = some x := by
  obtain ⟨u, hu, ht, hs, hc, ha⟩ := h.occursAt_iff.mp hx
  have ⟨y, hy⟩ : ∃ y, s.triggerTargetForCron id next = some y := by
    refine Option.isSome_iff_exists.mp ?_
    simp only [triggerTargetForCron, Option.isSome_map, List.find?_isSome]
    exact ⟨u, hu, by simp [hs, hc, ha]⟩
  rw [hy, h.occursAt_unique hx <| triggerTargetForCron_occursAt h hy]

theorem Advanced.exists_schedule (h : s.Advanced record.id next s') (ha : ∃ r ∈ s.schedules, Admits r record cron) :
    ∃ r ∈ s'.schedules, r.id = record.id := by
  obtain ⟨r, hr, ha⟩ := ha
  have hm := h.exists_right hr
  rw [if_pos ha.id] at hm
  exact ⟨_, hm, ha.id⟩

theorem createCronOccurrence_ok {new : NewRun} (h : s.Triggered) (ha : ∃ r ∈ s.schedules, Admits r record cron)
    (hb : rt.buildRunFromSchedule record (.object []) .cron next none id = .ok new)
    (hx : ∀ x, s.OccursAt record.id next x → ∃ i, x = .run i)
    (hf : s.Fired record.id next ∨ s.Fresh id triggerId) :
    ∃ run s', s.createCronOccurrence new record.revision cron triggerId now = .ok (.applied run, s') := by
  obtain ⟨rfl, hi, hk, hn, hy⟩ := buildRunFromSchedule_fields hb
  obtain ⟨s₁, hs₁⟩ : ∃ s₁, s.fence record.id record.revision cron next = some s₁ := fence_of_admits ha
  have hq := (fence_some hs₁).right.exists_schedule ha
  obtain ⟨ht₁, hr₁, hb₁⟩ := fence_keeps hs₁
  simp only [createCronOccurrence, hk, hi, hn, hs₁, ne_eq, not_true_eq_false, if_false]
  generalize ht : (⟨triggerId, record.id, .cron, next, none, .run new.id, now⟩ : TriggerIdentity) = t
  by_cases hF : s.Fired record.id next
  case pos =>
    obtain ⟨x, hx'⟩ := hF
    obtain ⟨i, rfl⟩ := hx x hx'
    obtain ⟨u, hu, -, -, -, -, hc⟩ := h.taken (t := t) (by rwa [← ht]) (by rw [← ht])
    rw [insertTriggerIdentity_taken (ht₁ ▸ hu) hc]
    simp only [triggerTargetForCron_eq h hx']
    obtain ⟨r, hr, rfl, -⟩ := hx'
    simp only [show s.runs.get? r.id = some r from Table.get?_of_mem hr]
    exact ⟨r, s, rfl⟩
  case neg =>
    have hf := hf.resolve_left hF
    have hc := h.apart_of_fresh (t := t) hf (by rw [← ht]) (by rw [← ht]) (by rwa [← ht]) (.inl <| by rw [← ht])
    obtain ⟨s₂, hs₂⟩ : ∃ s₂, s₁.insertTriggerIdentity t = .ok s₂ :=
      insertTriggerIdentity_ok (ht₁ ▸ hc) (by rw [← ht, ht₁]; exact hf.trigger) (by rwa [← ht])
    obtain ⟨_, _, he₂⟩ := insertTriggerIdentity_eq hs₂
    obtain ⟨s₃, hs₃⟩ : ∃ s₃, s₂.insertRun (new.row now) = .ok s₃ := by
      have hr₂ : s₂.runs = s.runs := by rw [he₂, hr₁]
      refine insertRun_ok (fun r hr => ?_) (hr₂ ▸ hf.run) (by rw [he₂]; simpa [NewRun.row, hi] using hq)
      rw [hr₂] at hr
      have hn' : ¬(r.triggerKind = .cron ∧ record.id = r.scheduleId ∧ next = r.scheduledAt) := by
        rintro ⟨hk, hs, ha⟩
        exact hF ⟨.run r.id, r, hr, rfl, hs.symm, hk, ha.symm⟩
      simpa [Run.Conflicts, NewRun.row, hk, hi, hn, hy] using fun h₁ h₂ h₃ => hn' ⟨h₁, h₂, h₃⟩
    simp only [hs₂, hs₃]
    exact ⟨_, _, rfl⟩

-- An occurrence that is there as a batch cannot be inserted as a run.
theorem createCronOccurrence_conflict {new : NewRun} {b : Uuid} (h : s.Triggered)
    (ha : ∃ r ∈ s.schedules, Admits r record cron) (hp : record.spec.parameterCollection.isSome = false)
    (hb : rt.buildRunFromSchedule record (.object []) .cron next none id = .ok new)
    (hx : s.OccursAt record.id next (.batch b)) :
    ∃ e, s.createCronOccurrence new record.revision cron triggerId now = .error e := by
  obtain ⟨rfl, hi, hk, hn, hy⟩ := buildRunFromSchedule_fields hb
  rcases createCronOccurrence_repeats h (hi ▸ hn ▸ hx) with he | ⟨result, hc, hr⟩
  case inl => exact he
  case inr =>
    have hf := (createCronOccurrence_occurrence h hp hb hc).fired ha
    cases result
    case staleSchedule => simp [isApplied] at hf
    case applied r =>
      have hr := hr.right
      rw [hi, hn] at hr
      cases h.occursAt_unique hr hx

theorem findBatchForTrigger_isSome {b : Uuid} (h : s.Triggered) (hx : s.OccursAt id next (.batch b)) :
    ∃ batch, s.findBatchForTrigger id next .cron none = some batch := by
  obtain ⟨u, hu, ht, hs, hc, ha⟩ := h.occursAt_iff.mp hx
  obtain ⟨batch, hm, rfl, -⟩ := hx
  refine Option.isSome_iff_exists.mp <| List.findSome?_isSome_iff.mpr ⟨u, Table.mem_select.mpr ⟨hu, ?_⟩, ?_⟩
  case refine_1 => simp [hs, ha, hc]
  case refine_2 => simp [ht, show s.batches.get? batch.id = some batch from Table.get?_of_mem hm]

theorem createCronBatch_ok {new : NewBatch} (h : s.Triggered) (ha : ∃ r ∈ s.schedules, Admits r record cron)
    (hb : rt.buildCronBatch record next id = .ok new) (hv : new.scheduleRevision = record.revision)
    (hl : validateBatchLimits new = none) (hx : ∀ x, s.OccursAt record.id next x → ∃ i, x = .batch i)
    (hf : s.Fired record.id next ∨ s.Fresh id triggerId) :
    ∃ batch s', s.createCronBatch new record.revision cron triggerId now = .ok (.applied batch, s') := by
  obtain ⟨rfl, hi, hk, hn, hy⟩ := buildCronBatch_fields hb
  obtain ⟨s₁, hs₁⟩ : ∃ s₁, s.fence record.id record.revision cron next = some s₁ := fence_of_admits ha
  have hq := (fence_some hs₁).right.exists_schedule ha
  obtain ⟨ht₁, hr₁, hb₁⟩ := fence_keeps hs₁
  simp only [createCronBatch, hk, hi, hn, hv, hl, hs₁, ne_eq, not_true_eq_false, if_false]
  generalize ht : (⟨triggerId, record.id, .cron, next, none, .batch new.id, now⟩ : TriggerIdentity) = t
  by_cases hF : s.Fired record.id next
  case pos =>
    obtain ⟨x, hx'⟩ := hF
    obtain ⟨i, rfl⟩ := hx x hx'
    obtain ⟨u, hu, -, -, -, -, hc⟩ := h.taken (t := t) (by rwa [← ht]) (by rw [← ht])
    obtain ⟨batch, hb⟩ := findBatchForTrigger_isSome h hx'
    rw [insertTriggerIdentity_taken (ht₁ ▸ hu) hc]
    simp only [hb]
    exact ⟨batch, s, rfl⟩
  case neg =>
    have hf := hf.resolve_left hF
    have hc := h.apart_of_fresh (t := t) hf (by rw [← ht]) (by rw [← ht]) (by rwa [← ht]) (.inr <| by rw [← ht])
    obtain ⟨s₂, hs₂⟩ : ∃ s₂, s₁.insertTriggerIdentity t = .ok s₂ :=
      insertTriggerIdentity_ok (ht₁ ▸ hc) (by rw [← ht, ht₁]; exact hf.trigger) (by rwa [← ht])
    obtain ⟨_, _, he₂⟩ := insertTriggerIdentity_eq hs₂
    obtain ⟨s₃, hs₃⟩ : ∃ s₃, s₂.insertBatch new triggerId now = .ok s₃ := by
      have hb₂ : s₂.batches = s.batches := by rw [he₂, hb₁]
      refine insertBatch_ok (fun b hb he => ?_) (hb₂ ▸ hf.batch)
      rw [hb₂] at hb
      obtain ⟨u, hu, ho⟩ := h.batch b hb
      exact hf.trigger u hu <| ho.id.trans he
    simp only [hs₂, hs₃]
    exact ⟨_, _, rfl⟩

theorem createCronBatch_conflict {new : NewBatch} {r : Uuid} (h : s.Triggered)
    (ha : ∃ r ∈ s.schedules, Admits r record cron) (hp : record.spec.parameterCollection.isSome)
    (hb : rt.buildCronBatch record next id = .ok new) (hx : s.OccursAt record.id next (.run r)) :
    ∃ e, s.createCronBatch new record.revision cron triggerId now = .error e := by
  obtain ⟨rfl, hi, hk, hn, hy⟩ := buildCronBatch_fields hb
  rcases createCronBatch_repeats h (hi ▸ hn ▸ hx) with he | ⟨result, hc, hr⟩
  case inl => exact he
  case inr =>
    have hf := (createCronBatch_occurrence h hp hb hc).fired ha
    cases result
    case staleSchedule => simp [isAppliedBatch] at hf
    case applied b =>
      have hr := hr.right
      rw [hi, hn] at hr
      cases h.occursAt_unique hr hx

-- A round of the inner loop for an accepted schedule that is still as the record says: it succeeds
-- unless nothing can be built or the occurrence is there as something else.
theorem materializeOccurrence_ok {draw : Draw} (h : s.Triggered) (ha : ∃ r ∈ s.schedules, Admits r record cron)
    (hr : rt.Accepts record) (he : record.spec.enabled) (hu : ¬rt.Unresolvable record)
    (hc : ¬s.Conflicts record next) (hf : s.Fired record.id next ∨ s.Fresh draw.id draw.triggerId) :
    ∃ s', s.materializeOccurrence rt record cron next draw = .ok (true, s') := by
  simp only [materializeOccurrence]
  cases hp : record.spec.parameterCollection.isSome
  case false =>
    have hx x (hx : s.OccursAt record.id next x) : ∃ i, x = .run i := by
      cases x
      case run i => exact ⟨i, rfl⟩
      case batch => exact absurd ⟨_, hx, hp⟩ hc
    obtain ⟨new, hb⟩ : ∃ new, rt.buildRunFromSchedule record (.object []) .cron next none draw.id = .ok new :=
      (hr.run hp he).mpr hu
    obtain ⟨run, s', ho⟩ : ∃ run s', s.createCronOccurrence new record.revision cron draw.triggerId draw.now =
        .ok (.applied run, s') := createCronOccurrence_ok h ha hb hx hf
    exact ⟨s', by simp [hb, ho, Transaction.commit]⟩
  case true =>
    have hx x (hx : s.OccursAt record.id next x) : ∃ i, x = .batch i := by
      cases x
      case run => exact absurd ⟨_, hx, hp⟩ hc
      case batch i => exact ⟨i, rfl⟩
    obtain ⟨new, hb, hv, hl⟩ : ∃ new, rt.buildCronBatch record next draw.id = .ok new ∧
        new.scheduleRevision = record.revision ∧ validateBatchLimits new = none := hr.batch hp
    obtain ⟨batch, s', ho⟩ : ∃ batch s', s.createCronBatch new record.revision cron draw.triggerId draw.now =
        .ok (.applied batch, s') := createCronBatch_ok h ha hb hv hl hx hf
    exact ⟨s', by simp [hb, ho, Transaction.commit]⟩

theorem materializeOccurrence_error {draw : Draw} (h : s.Triggered)
    (ha : ∃ r ∈ s.schedules, Admits r record cron) (hr : rt.Accepts record) (he : record.spec.enabled)
    (hc : rt.Unresolvable record ∨ s.Conflicts record next) :
    ∃ e, s.materializeOccurrence rt record cron next draw = .error e := by
  simp only [materializeOccurrence]
  cases hp : record.spec.parameterCollection.isSome
  case false =>
    cases hb : rt.buildRunFromSchedule record (.object []) .cron next none draw.id
    case error message => exact ⟨_, rfl⟩
    case ok new =>
      have hu : ¬rt.Unresolvable record := (hr.run hp he).mp ⟨new, hb⟩
      obtain ⟨x, hx, hk⟩ := hc.resolve_left hu
      cases x
      case run => simp [hp] at hk
      case batch b =>
        obtain ⟨e, ho⟩ : ∃ e, s.createCronOccurrence new record.revision cron draw.triggerId draw.now = .error e :=
          createCronOccurrence_conflict h ha hp hb hx
        exact ⟨e, by simp [ho]⟩
  case true =>
    have hu : ¬rt.Unresolvable record := by simp [CronRuntime.Unresolvable, hp]
    obtain ⟨x, hx, hk⟩ := hc.resolve_left hu
    cases x
    case batch => simp [hp] at hk
    case run r =>
      obtain ⟨new, hb, _⟩ : ∃ new, rt.buildCronBatch record next draw.id = .ok new ∧
          new.scheduleRevision = record.revision ∧ validateBatchLimits new = none := hr.batch hp
      obtain ⟨e, ho⟩ : ∃ e, s.createCronBatch new record.revision cron draw.triggerId draw.now = .error e :=
        createCronBatch_conflict h ha hp hb hx
      exact ⟨e, by simp [hb, ho]⟩

end Outcome

section Loops

variable {s₁ : Store} {r : Schedule} {id instant : Uuid} {b : Bool} {draw : Draw} {e : Option StoreError}
  {draws : Uuid → Time → Draw} {due : List Time} {before after records : List Schedule} {o : Time}
  {P : Uuid → Time → Prop}

-- The identifiers that a pass draws differ from each other.
def Distinct (draws : Uuid → Time → Draw) : Prop :=
  ∀ id₁ o₁ id₂ o₂, (id₁, o₁) ≠ (id₂, o₂) →
    (draws id₁ o₁).id ≠ (draws id₂ o₂).id ∧ (draws id₁ o₁).triggerId ≠ (draws id₂ o₂).triggerId

-- They are not in use as long as they are needed.
def Ready (s : Store) (draws : Uuid → Time → Draw) : Prop :=
  ∀ id o, s.Fired id o ∨ s.Fresh (draws id o).id (draws id o).triggerId

theorem Fresh.fence {revision occurrence} (h : s.Fresh id triggerId)
    (hf : s.fence instant revision cron occurrence = some s') : s'.Fresh id triggerId := by
  obtain ⟨_, rfl⟩ := fence_eq hf
  exact ⟨h.trigger, h.run, h.batch⟩

theorem Fresh.insertTriggerIdentity {t : TriggerIdentity} (h : s.Fresh id triggerId)
    (hi : s.insertTriggerIdentity t = .ok s') (ht : triggerId ≠ t.id) : s'.Fresh id triggerId := by
  obtain ⟨_, hx, rfl⟩ := insertTriggerIdentity_eq hi
  refine ⟨fun u hu => ?_, h.run, h.batch⟩
  rcases Table.mem_of_insert hx |>.mp hu with hu | rfl
  case inl => exact h.trigger u hu
  case inr => exact ht.symm

theorem Fresh.insertRun {run : Run} (h : s.Fresh id triggerId) (hi : s.insertRun run = .ok s')
    (hr : id ≠ run.id) : s'.Fresh id triggerId := by
  obtain ⟨_, hx, rfl⟩ := insertRun_eq hi
  refine ⟨h.trigger, fun u hu => ?_, h.batch⟩
  rcases Table.mem_of_insert hx |>.mp hu with hu | rfl
  case inl => exact h.run u hu
  case inr => exact hr.symm

theorem Fresh.insertBatch {new : NewBatch} {tid} (h : s.Fresh id triggerId)
    (hi : s.insertBatch new tid now = .ok s') (hb : id ≠ new.id) : s'.Fresh id triggerId := by
  obtain ⟨_, hx, rfl⟩ := insertBatch_eq hi
  refine ⟨h.trigger, h.run, fun u hu => ?_⟩
  rcases Table.mem_of_insert hx |>.mp hu with hu | rfl
  case inl => exact h.batch u hu
  case inr => exact hb.symm

theorem createCronOccurrence_fresh {new : NewRun} {revision result tid} (h : s.Fresh id triggerId)
    (hc : s.createCronOccurrence new revision cron tid now = .ok (result, s')) (hi : id ≠ new.id)
    (ht : triggerId ≠ tid) : s'.Fresh id triggerId := by
  simp only [createCronOccurrence] at hc
  repeat' split at hc
  all_goals cases hc
  case _ | _ => exact h
  case _ hf _ _ _ _ hx _ _ => exact h.fence hf |>.insertTriggerIdentity hx ht
  case _ hf _ _ hx _ _ hr =>
    have hn : id ≠ (new.row now).id := hi
    have := h.fence hf |>.insertTriggerIdentity hx ht |>.insertRun hr hn
    exact ⟨this.trigger, this.run, this.batch⟩

theorem createCronBatch_fresh {new : NewBatch} {revision result tid} (h : s.Fresh id triggerId)
    (hc : s.createCronBatch new revision cron tid now = .ok (result, s')) (hi : id ≠ new.id)
    (ht : triggerId ≠ tid) : s'.Fresh id triggerId := by
  simp only [createCronBatch] at hc
  repeat' split at hc
  all_goals cases hc
  case _ | _ => exact h
  case _ hf _ _ hx _ _ hb =>
    have := h.fence hf |>.insertTriggerIdentity hx ht |>.insertBatch hb hi
    exact ⟨this.trigger, this.run, this.batch⟩

theorem materializeOccurrence_fresh (h : s.Fresh id triggerId)
    (hm : s.materializeOccurrence rt record cron next draw = .ok (b, s')) (hi : id ≠ draw.id)
    (ht : triggerId ≠ draw.triggerId) : s'.Fresh id triggerId := by
  simp only [materializeOccurrence] at hm
  split at hm
  case isTrue =>
    split at hm
    case h_1 => contradiction
    case h_2 new hb =>
      have hi' := (buildCronBatch_fields hb).left
      split at hm
      all_goals cases hm
      all_goals case _ hc => exact createCronBatch_fresh h hc (hi' ▸ hi) ht
  case isFalse =>
    split at hm
    case h_1 => contradiction
    case h_2 new hb =>
      have hi' := (buildRunFromSchedule_fields hb).left
      split at hm
      all_goals cases hm
      all_goals case _ hc => exact createCronOccurrence_fresh h hc (hi' ▸ hi) ht

theorem Ready.occurrence (h : s.Ready draws) (hd : Distinct draws) (ht : s.Triggered)
    (hm : s.materializeOccurrence rt record cron next (draws record.id next) = .ok (true, s')) : s'.Ready draws := by
  have ho := materializeOccurrence_occurrence ht hm
  have hg := ho.grows ht (materializeOccurrence_triggered ht hm)
  intro id o
  by_cases he : (id, o) = (record.id, next)
  case pos =>
    cases he
    cases ho
    case repeated hf => exact .inl hf
    case inserted hx => exact .inl ⟨_, hx _ _ _ |>.mpr <| .inr ⟨rfl, rfl, rfl⟩⟩
  case neg =>
    have ⟨hi, ht⟩ := hd _ _ _ _ he
    exact (h id o).imp hg.fired fun hf => materializeOccurrence_fresh hf hm hi ht

theorem Grows.conflicts_iff (h : s.Grows P s') (hp : ∀ o, ¬P q.id o) : s'.Conflicts q o ↔ s.Conflicts q o := by
  have hx x : s'.OccursAt q.id o x ↔ s.OccursAt q.id o x :=
    ⟨fun hx => (h.only _ _ _ hx).resolve_right (hp o), h.keeps _ _ _⟩
  simp only [Conflicts, hx]

theorem Grows.fired_iff (h : s.Grows P s') (hp : ∀ o, ¬P id o) : s'.Fired id o ↔ s.Fired id o :=
  ⟨fun hf => (h.fired_only hf).resolve_right (hp o), h.fired⟩

-- What is inserted for a schedule is of the kind that the schedule asks for.
theorem Occurrence.conflicts_iff (h : Occurrence rt s record cron next b s') :
    s'.Conflicts record o ↔ s.Conflicts record o := by
  cases h
  case stale | repeated => rfl
  case inserted hb hx =>
    constructor
    case mp =>
      intro ⟨y, hy, hk⟩
      rcases hx _ _ _ |>.mp hy with hy | ⟨-, -, rfl⟩
      case inl => exact ⟨y, hy, hk⟩
      case inr =>
        cases hb
        case run hc _ _ => simp [hc] at hk
        case batch hc _ _ => simp [hc] at hk
    case mpr => exact fun ⟨y, hy, hk⟩ => ⟨y, hx _ _ _ |>.mpr <| .inl hy, hk⟩

-- A record as the API accepts it, of a schedule that has not changed since.
structure Good (rt : CronRuntime) (s : Store) (record : Schedule) : Prop where
  accepts : rt.Accepts record
  enabled : record.spec.enabled
  admits  : ∀ cron, record.spec.cron = some cron → ∃ r ∈ s.schedules, Admits r record cron

theorem Good.unedited (h : Good rt s record) (hu : s.Unedited s') : Good rt s' record where
  accepts      := h.accepts
  enabled      := h.enabled
  admits c hc  := hu.admits <| h.admits c hc

-- The inner loop for such a record ends at the first occurrence that is there as something else.
theorem materializeSchedule_exact (ht : s.Triggered) (hg : Good rt s record) (hd : Distinct draws)
    (hr : s.Ready draws) (hu : ¬rt.Unresolvable record) (hc : record.spec.cron = some cron)
    (h : s.materializeSchedule rt record cron draws due = (s', e)) :
    (e = none → s'.Ready draws) ∧ (e = none ↔ ∀ o ∈ due, ¬s.Conflicts record o) ∧
      ∀ o, s'.Fired record.id o ↔ s.Fired record.id o ∨
        ∃ l₁ l₂, due = l₁ ++ o :: l₂ ∧ ∀ o' ∈ l₁, ¬s.Conflicts record o' := by
  induction due generalizing s
  case nil =>
    cases h
    simpa using hr
  case cons next due hi =>
    simp only [materializeSchedule] at h
    by_cases hx : s.Conflicts record next
    case pos =>
      obtain ⟨e, hm⟩ : ∃ e, s.materializeOccurrence rt record cron next (draws record.id next) = .error e :=
        materializeOccurrence_error ht (hg.admits cron hc) hg.accepts hg.enabled (.inr hx)
      rw [hm] at h
      cases h
      refine ⟨by rintro ⟨⟩, by simp [hx], fun o => ⟨.inl, ?_⟩⟩
      rintro (hf | ⟨l₁, l₂, hl, hn⟩)
      case inl => exact hf
      case inr =>
        rcases List.append_eq_cons_iff.mp hl.symm with ⟨rfl, hl⟩ | ⟨l, rfl, -⟩
        case inl =>
          obtain ⟨rfl, -⟩ := List.cons.inj hl
          exact ⟨hx.choose, hx.choose_spec.left⟩
        case inr => exact absurd hx <| hn next List.mem_cons_self
    case neg =>
      obtain ⟨s₁, hm⟩ : ∃ s₁, s.materializeOccurrence rt record cron next (draws record.id next) = .ok (true, s₁) :=
        materializeOccurrence_ok ht (hg.admits cron hc) hg.accepts hg.enabled hu hx (hr _ _)
      rw [hm] at h
      have ht₁ := materializeOccurrence_triggered ht hm
      have ho := materializeOccurrence_occurrence ht hm
      have hgr := ho.grows ht ht₁
      obtain ⟨h₁, h₂, h₃⟩ := hi ht₁ (hg.unedited hgr.unedited) (hr.occurrence hd ht hm) h
      simp only [ho.conflicts_iff] at h₂ h₃
      refine ⟨h₁, by simp [h₂, hx], fun o => ?_⟩
      have hf : s₁.Fired record.id o ↔ s.Fired record.id o ∨ o = next := by
        constructor
        case mp => exact fun hf => (hgr.fired_only hf).imp_right And.right
        case mpr =>
          rintro (hf | rfl)
          case inl => exact hgr.fired hf
          case inr => exact (ho.fired <| hg.admits cron hc).right
      rw [h₃, hf]
      constructor
      case mp =>
        rintro ((hf | rfl) | ⟨l₁, l₂, rfl, hn⟩)
        case inl.inl => exact .inl hf
        case inl.inr => exact .inr ⟨[], due, rfl, by simp⟩
        case inr => exact .inr ⟨next :: l₁, l₂, rfl, List.forall_mem_cons.mpr ⟨hx, hn⟩⟩
      case mpr =>
        rintro (hf | ⟨l₁, l₂, hl, hn⟩)
        case inl => exact .inl <| .inl hf
        case inr =>
          rcases List.append_eq_cons_iff.mp hl.symm with ⟨rfl, hl⟩ | ⟨l, rfl, hl⟩
          case inl => exact .inl <| .inr (List.cons.inj hl).left.symm
          case inr => exact .inr ⟨l, l₂, (List.cons.inj hl).right, (List.forall_mem_cons.mp hn).right⟩

theorem materializeSchedule_error_iff (ht : s.Triggered) (hg : Good rt s record) (hd : Distinct draws)
    (hr : s.Ready draws) (hc : record.spec.cron = some cron)
    (h : s.materializeSchedule rt record cron draws due = (s', e)) :
    (e = none → s'.Ready draws) ∧
      (e = none ↔ ¬(rt.Unresolvable record ∧ due ≠ [] ∨ ∃ o ∈ due, s.Conflicts record o)) := by
  by_cases hu : rt.Unresolvable record
  case neg =>
    have ⟨h₁, h₂, _⟩ := materializeSchedule_exact ht hg hd hr hu hc h
    exact ⟨h₁, by simp [h₂, hu]⟩
  case pos =>
    cases due
    case nil =>
      cases h
      simpa using hr
    case cons next due =>
      have ⟨e, hm⟩ : ∃ e, s.materializeOccurrence rt record cron next (draws record.id next) = .error e :=
        materializeOccurrence_error ht (hg.admits cron hc) hg.accepts hg.enabled (.inl hu)
      simp only [materializeSchedule, hm] at h
      cases h
      simp [hu]

-- A schedule that ends the pass: no run can be built from it, or one of its occurrences is there as
-- something else.
def Blocks (rt : CronRuntime) (now : Time) (s : Store) (q : Schedule) : Prop :=
  ∃ cron due, q.spec.cron = some cron ∧ rt.calendar.dueCronBatch cron q.cursor now = .ok due ∧
    (rt.Unresolvable q ∧ due ≠ [] ∨ ∃ o ∈ due, s.Conflicts q o)

theorem Grows.blocks_iff (h : s.Grows P s') (hp : ∀ o, ¬P q.id o) : Blocks rt now s' q ↔ Blocks rt now s q := by
  simp only [Blocks, h.conflicts_iff hp]

open Classical in
-- One round of the outer loop.
theorem materializeCron_round (ht : s.Triggered) (hg : Good rt s record) (hd : Distinct draws)
    (hr : s.Ready draws) : ∃ s₁, s.Grows (Due rt now [record]) s₁ ∧ ∀ records,
      if Blocks rt now s record then ∃ e, materializeCron rt now draws s (record :: records) = (s₁, some e)
      else s₁.Ready draws ∧
        materializeCron rt now draws s (record :: records) = materializeCron rt now draws s₁ records := by
  cases hc : record.spec.cron
  case none =>
    have hb : ¬Blocks rt now s record := by simp [Blocks, hc]
    exact ⟨s, .refl ht, fun records => by simpa [hb, materializeCron, hc] using hr⟩
  case some cron =>
    obtain ⟨due, hx⟩ : ∃ due, rt.calendar.dueCronBatch cron record.cursor now = .ok due := hg.accepts.due hc
    have hb : Blocks rt now s record ↔
        (rt.Unresolvable record ∧ due ≠ [] ∨ ∃ o ∈ due, s.Conflicts record o) := by
      simp [Blocks, hc, hx]
    cases hm : s.materializeSchedule rt record cron draws due
    case mk s₁ e =>
      obtain ⟨hr₁, he⟩ := materializeSchedule_error_iff ht hg hd hr hc hm
      rw [← hb] at he
      refine ⟨s₁, (materializeSchedule_grows ht hm).mono fun _ _ => .head hc hx, fun records => ?_⟩
      simp only [materializeCron, hc, hx, hm]
      cases e
      case none => simpa [he.mp rfl] using hr₁ rfl
      case some e =>
        have : Blocks rt now s record := by simpa using he
        simp [this]

theorem not_due_of_nodup (h : q.id ∉ records.map (·.id)) (o : Time) : ¬Due rt now records q.id o :=
  fun ⟨_, hr, hi, _⟩ => h <| List.mem_map.mpr ⟨_, hr, hi⟩

open Classical in
-- The schedules that come first either all leave the pass going or end it.
theorem materializeCron_before (ht : s.Triggered) (hg : ∀ q ∈ before, Good rt s q)
    (hn : (before.map (·.id)).Nodup) (hd : Distinct draws) (hr : s.Ready draws) :
    ∃ s₁, s.Grows (Due rt now before) s₁ ∧ ∀ records,
      if ∀ q ∈ before, ¬Blocks rt now s q then s₁.Ready draws ∧
        materializeCron rt now draws s (before ++ records) = materializeCron rt now draws s₁ records
      else ∃ e, materializeCron rt now draws s (before ++ records) = (s₁, some e) := by
  induction before generalizing s
  case nil => exact ⟨s, .refl ht, fun records => by simpa using hr⟩
  case cons q before hi =>
    have ⟨hg, hgs⟩ := List.forall_mem_cons.mp hg
    have ⟨hq, hn⟩ := List.nodup_cons.mp hn
    have ⟨s₁, h₁, hs₁⟩ : ∃ s₁, s.Grows (Due rt now [q]) s₁ ∧ _ := materializeCron_round ht hg hd hr
    have h₁' : s.Grows (Due rt now (q :: before)) s₁ :=
      h₁.mono fun _ _ ⟨r, hr, h⟩ => ⟨r, List.mem_singleton.mp hr ▸ List.mem_cons_self, h⟩
    by_cases hb : Blocks rt now s q
    case pos =>
      simp only [hb, if_true] at hs₁
      exact ⟨s₁, h₁', fun records => by simpa [hb] using hs₁ (before ++ records)⟩
    case neg =>
      simp only [hb, if_false] at hs₁
      have ⟨s₂, h₂, hs₂⟩ := hi h₁.triggered (fun q hq => (hgs q hq).unedited h₁.unedited) hn (hs₁ []).left
      have hx : (∀ p ∈ before, ¬Blocks rt now s₁ p) ↔ ∀ p ∈ q :: before, ¬Blocks rt now s p := by
        rw [List.forall_mem_cons]
        refine ⟨fun h => ⟨hb, fun p hp => ?_⟩, fun ⟨_, h⟩ p hp => ?_⟩
        all_goals
          have hne : p.id ∉ [q].map (·.id) := fun he =>
            hq <| List.mem_map.mpr ⟨p, hp, List.mem_singleton.mp he⟩
          have hi : Blocks rt now s₁ p ↔ _ := h₁.blocks_iff <| not_due_of_nodup hne
        case refine_1 => exact hi.not.mp <| h p hp
        case refine_2 => exact hi.not.mpr <| h p hp
      refine ⟨s₂, h₁'.trans <| h₂.mono fun _ _ => .cons, fun records => ?_⟩
      have hs₂ := hs₂ records
      rw [← (hs₁ (before ++ records)).right] at hs₂
      simpa only [hx, List.cons_append] using hs₂

theorem Grows.fired_split (h : s.Grows P s') (hp : ∀ o, ¬P record.id o) :
    (s'.Fired record.id o ∨ ∃ l₁ l₂, due = l₁ ++ o :: l₂ ∧ ∀ o' ∈ l₁, ¬s'.Conflicts record o') ↔
      (s.Fired record.id o ∨ ∃ l₁ l₂, due = l₁ ++ o :: l₂ ∧ ∀ o' ∈ l₁, ¬s.Conflicts record o') := by
  simp only [h.fired_iff hp, h.conflicts_iff hp]

-- What a whole pass inserts for one schedule, at its place among the others.
theorem materializeCron_exact (ht : s.Triggered) (hg : ∀ q ∈ before ++ record :: after, Good rt s q)
    (hn : ((before ++ record :: after).map (·.id)).Nodup) (hd : Distinct draws) (hr : s.Ready draws)
    (hu : ¬rt.Unresolvable record) (hc : record.spec.cron = some cron)
    (hx : rt.calendar.dueCronBatch cron record.cursor now = .ok due) :
    (materializeCron rt now draws s (before ++ record :: after)).1.Fired record.id o ↔
      s.Fired record.id o ∨ (∀ q ∈ before, ¬Blocks rt now s q) ∧
        ∃ l₁ l₂, due = l₁ ++ o :: l₂ ∧ ∀ o' ∈ l₁, ¬s.Conflicts record o' := by
  rw [List.map_append, List.map_cons, List.nodup_append] at hn
  have ⟨hn₁, hn₂, hn₃⟩ := hn
  have ha : ∀ o, ¬Due rt now after record.id o := not_due_of_nodup (List.nodup_cons.mp hn₂).left
  have hb : ∀ o, ¬Due rt now before record.id o :=
    not_due_of_nodup fun h => hn₃ record.id h record.id List.mem_cons_self rfl
  have ⟨s₁, h₁, hs₁⟩ : ∃ s₁, s.Grows (Due rt now before) s₁ ∧ _ :=
    materializeCron_before ht (fun q hq => hg q <| List.mem_append_left _ hq) hn₁ hd hr
  have hs₁ := hs₁ (record :: after)
  split at hs₁
  case isFalse hk =>
    have ⟨e, hs₁⟩ := hs₁
    simp only [hs₁, hk, false_and, or_false, h₁.fired_iff hb]
  case isTrue hk =>
    have ⟨hr₁, hs₁⟩ := hs₁
    have hg₁ := (hg record <| List.mem_append_right _ List.mem_cons_self).unedited h₁.unedited
    rw [hs₁, and_iff_right hk]
    cases hm : s₁.materializeSchedule rt record cron draws due
    case mk s₂ e =>
      have ⟨_, _, hf⟩ := materializeSchedule_exact h₁.triggered hg₁ hd hr₁ hu hc hm
      have ht₂ := (materializeSchedule_grows h₁.triggered hm).triggered
      rw [← h₁.fired_split hb, ← hf]
      simp only [materializeCron, hc, hx, hm]
      cases e
      case some => rfl
      case none => exact (materializeCron_grows ht₂ rfl).fired_iff ha

end Loops

end Store

namespace CronState

variable {rt : CronRuntime} {σ : CronState} {r : Schedule} {order : List Uuid}

theorem Sound.good (h : σ.Sound rt) (hr : r ∈ σ.store.cronSchedules order) (ha : rt.Accepts r) :
    Store.Good rt σ.store r := by
  have ⟨hm, he, _⟩ := Store.mem_cronSchedules hr
  have hc := h.columns r hm
  refine ⟨ha, hc.enabled ▸ he, fun cron hs => ⟨r, hm, rfl, rfl, he, ?_, ?_⟩⟩
  case refine_1 => simp [hc.expression, hs]
  case refine_2 => simp [hc.timezone, hs]

theorem pass_isolates {before after : List Schedule} {cron due now} {draws : Uuid → Time → Draw}
    (h : (cronMachine rt).Reachable .initial σ) (ha : ∀ q ∈ σ.store.schedules, rt.Accepts q)
    (ho : order.Perm (σ.store.schedules.rows.map (·.id))) (hd : Store.Distinct draws)
    (hf : ∀ id o, σ.store.Fresh (draws id o).id (draws id o).triggerId)
    (hs : σ.store.cronSchedules order = before ++ r :: after) (hb : rt.Builds r)
    (hc : r.spec.cron = some cron) (hx : rt.calendar.dueCronBatch cron r.cursor now = .ok due) :
    ∀ o ∈ due,
      (Store.materializeCron rt now draws σ.store (σ.store.cronSchedules order)).1.Fired r.id o ↔
        σ.store.Fired r.id o ∨ (∀ q ∈ before, ¬Store.Blocks rt now σ.store q) ∧
          ∃ l₁ l₂, due = l₁ ++ o :: l₂ ∧ ∀ o' ∈ l₁, ¬σ.store.Conflicts r o' := by
  intro o _
  have hσ := Sound.of_reachable h
  have hn : order.Nodup := ho.nodup_iff.mpr σ.store.schedules.nodup
  have hg : ∀ q ∈ σ.store.cronSchedules order, Store.Good rt σ.store q :=
    fun q hq => hσ.good hq <| ha q (Store.mem_cronSchedules hq).left
  have hr : r ∈ σ.store.cronSchedules order := hs ▸ List.mem_append_right _ List.mem_cons_self
  have hu := ((hg r hr).accepts.builds_iff (hg r hr).enabled).mp hb
  have hn : ((σ.store.cronSchedules order).map (·.id)).Nodup := Store.cronSchedules_nodup hn
  rw [hs] at hg hn ⊢
  exact Store.materializeCron_exact hσ.triggered hg hn hd (fun id o => .inr <| hf id o) hu hc hx

-- The store after an uninterrupted pass is one that the machine reaches.
theorem pass_refines (h : (steadyCron rt).Reachable .initial σ)
    (ho : order.Perm (σ.store.schedules.rows.map (·.id))) (draws : Uuid → Time → Draw) :
    ∃ σ', (steadyCron rt).Reachable .initial σ' ∧ σ'.store =
      (Store.materializeCron rt σ.clock draws σ.store (σ.store.cronSchedules order)).1 := by
  have hv : (steadyCron rt).Valid σ [.begin 0, .read 0 order] :=
    .cons ⟨trivial, trivial⟩ (.cons ⟨ho, trivial⟩ .nil)
  have hi : ((cronMachine rt).run σ [.begin 0, .read 0 order]).Idle 0 σ.clock
      (σ.store.cronSchedules order) := ⟨none, rfl, by simp⟩
  have ⟨as, ha⟩ := materializeCron_steps hi (Prod.mk.eta (p := Store.materializeCron rt σ.clock
    draws σ.store _)).symm
  have hs (τ : CronState) : (steadyCron rt).Valid τ (as.map (.step 0)) := by
    clear ha
    induction as generalizing τ
    case nil => exact .nil
    case cons hi => exact .cons ⟨trivial, trivial⟩ (hi _)
  exact ⟨_, (h.run hv).run (hs _), ha⟩

end CronState

namespace Sample

-- The saved parameters hold a value for a bound parameter. The API accepts this, but no run can be built.
def boundSchedule : NewSchedule :=
  { cronSchedule with encryptedSnapshot := some <| resolved ["region"] (.object [("region", .string "eu")]) }

def mixed : CronState :=
  (steadyCron cronRuntime).run .initial [
    .exec (.createSchedule boundSchedule 0),
    .exec (.createSchedule { hourlySchedule with id := 2 } 0),
    .tick 4000000
  ]

def draws (id : Uuid) (o : Time) : Draw :=
  ⟨Encodable.encode (id, o), Encodable.encode (id, o), 0⟩

theorem draws_distinct : Store.Distinct draws := by
  intro id₁ o₁ id₂ o₂ hn
  have := Encodable.encode_injective.ne hn
  exact ⟨this, this⟩

theorem mixed_accepted : ∀ q ∈ mixed.store.schedules, cronRuntime.Accepts q := by
  intro q hq
  rcases hq with _ | ⟨_, _ | ⟨_, hq⟩⟩
  case head => exact ⟨rfl, (resolved ["region"] .null).blueprint, .object [("region", .string "eu")], rfl⟩
  case tail.head => exact ⟨rfl, (resolved [] .null).blueprint, .object [], rfl⟩
  case tail.tail => exact absurd hq List.not_mem_nil

end Sample

namespace CronState

open Sample

-- The healthy schedule fires if it comes first.
theorem pass_isolates_mixed :
    (Store.materializeCron cronRuntime 4000000 draws mixed.store (mixed.store.cronSchedules [2, 1])).1.Fired
      2 3600000 := by
  have h : (cronMachine cronRuntime).Reachable .initial mixed := Machine.Reachable.refl.run (by decide)
  have hf : ∀ id o, mixed.store.Fresh (draws id o).id (draws id o).triggerId := fun _ _ =>
    ⟨fun _ ht => absurd ht Table.not_mem_empty, fun _ hr => absurd hr Table.not_mem_empty,
      fun _ hb => absurd hb Table.not_mem_empty⟩
  have ⟨r, hs, hi, hb, hc, hd⟩ : ∃ r,
      mixed.store.cronSchedules [2, 1] = [] ++ r :: mixed.store.cronSchedules [1] ∧ r.id = 2 ∧
        cronRuntime.Builds r ∧ r.spec.cron = some hourly ∧
        cronRuntime.calendar.dueCronBatch hourly r.cursor 4000000 = .ok [3600000] :=
    ⟨_, rfl, rfl, fun _ _ => ⟨_, rfl⟩, rfl, rfl⟩
  have hx := pass_isolates h mixed_accepted (by decide) draws_distinct hf hs hb hc hd 3600000 (by decide)
  exact hi ▸ hx.mpr <| .inr ⟨by simp, [], [], rfl, by simp⟩

theorem pass_refines_mixed : ∃ σ, (steadyCron cronRuntime).Reachable .initial σ ∧ σ.store =
    (Store.materializeCron cronRuntime 4000000 draws mixed.store
      (mixed.store.cronSchedules [2, 1])).1 :=
  pass_refines (σ := mixed) (Machine.Reachable.refl.run (by decide)) (by decide) draws

theorem mixed_not_isolated :
    (steadyCron cronRuntime).Reachable .initial mixed ∧ (∀ q ∈ mixed.store.schedules, cronRuntime.Accepts q) ∧
    ∃ r ∈ mixed.store.schedules, cronRuntime.Builds r ∧ r.spec.cron = some hourly ∧
      cronRuntime.calendar.dueCronBatch hourly r.cursor mixed.clock = .ok [3600000] ∧
      [1, 2].Perm (mixed.store.schedules.rows.map (·.id)) ∧ ∀ draws,
        ¬(Store.materializeCron cronRuntime mixed.clock draws mixed.store
          (mixed.store.cronSchedules [1, 2])).1.Fired r.id 3600000 := by
  refine ⟨Machine.Reachable.refl.run (by decide), mixed_accepted, _, .tail _ (.head _), fun _ _ => ⟨_, rfl⟩,
    rfl, rfl, by decide, fun draws ⟨x, hx⟩ => ?_⟩
  cases x
  case run =>
    have ⟨_, hr, _⟩ := hx
    exact absurd hr Table.not_mem_empty
  case batch =>
    have ⟨_, hb, _⟩ := hx
    exact absurd hb Table.not_mem_empty

end CronState

end Scheduler
