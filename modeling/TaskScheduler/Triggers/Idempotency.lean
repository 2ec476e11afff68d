import TaskScheduler.Triggers.Origins
import TaskScheduler.Coordinator.Batches

namespace Scheduler

-- The identity under which a run was created.
structure TriggerIdentity.OfRun (t : TriggerIdentity) (o : Run.Origin) : Prop where
  target         : t.target = .run o.id
  scheduleId     : t.scheduleId = o.scheduleId
  triggerKind    : t.triggerKind = o.triggerKind
  scheduledAt    : t.scheduledAt = o.scheduledAt
  idempotencyKey : t.idempotencyKey = o.idempotencyKey

structure TriggerIdentity.OfBatch (t : TriggerIdentity) (o : Batch.Origin) : Prop where
  target      : t.target = .batch o.id
  id          : t.id = o.triggerIdentityId
  scheduleId  : t.scheduleId = o.scheduleId
  triggerKind : t.triggerKind = o.triggerKind
  scheduledAt : t.scheduledAt = o.scheduledAt

theorem TriggerIdentity.conflicts_symm {t₁ t₂ : TriggerIdentity} (h : t₁.Conflicts t₂) :
    t₂.Conflicts t₁ := by
  simp only [Conflicts, Bool.or_eq_true, Bool.and_eq_true, decide_eq_true_eq] at h ⊢
  rcases h with (⟨⟨⟨h₁, h₂⟩, h₃⟩, h₄⟩ | ⟨⟨h₁, h₂⟩, h₃⟩) | h
  case inl.inl => exact .inl <| .inl ⟨⟨⟨h₂, h₁⟩, h₃.symm⟩, h₄.symm⟩
  case inl.inr => exact .inl <| .inr ⟨⟨h₂ ▸ h₁, h₂.symm⟩, h₃.symm⟩
  case inr => exact .inr h.symm

-- The key that a cron occurrence is given. It is stored with the run, but not in the identity.
def Op.cronKey : Op → Option String
  | .createCronOccurrence new .. => new.idempotencyKey
  | _                            => none

-- Cron occurrences are asked for by their instant alone.
def keylessDatabase : Machine Store Op :=
  database.restrict fun _ op => op.cronKey = none

instance {s : Store} {op : Op} : Decidable (keylessDatabase.Enabled s op) :=
  inferInstanceAs (Decidable (True ∧ op.cronKey = none))

namespace Store

-- The identity was added, and it stands in the way of no other.
structure Identifies (s : Store) (t : TriggerIdentity) (s' : Store) : Prop where
  apart  : ∀ u ∈ s.triggerIdentities, t.Conflicts u = false
  insert : s.triggerIdentities.insert t = some s'.triggerIdentities

-- What an operation can do to the triggers of schedules.
inductive Fires (s s' : Store) : Prop
  | keeps (ht : s'.triggerIdentities = s.triggerIdentities) (h : s.core.Keeps s'.core)
  | run {t : TriggerIdentity} {r : Run} (ht : s.Identifies t s') (hr : s.runs.insert r = some s'.runs)
      (hb : s'.batches = s.batches) (h : t.OfRun r.origin)
  | batch {t : TriggerIdentity} {b : Batch} (ht : s.Identifies t s') (hr : s'.runs = s.runs)
      (hb : s.batches.insert b = some s'.batches) (h : t.OfBatch b.origin)
  -- The run of a cron occurrence is there, but no identity leads to it.
  | orphan {t : TriggerIdentity} {r : Run} (ht : s.Identifies t s') (hk : t.triggerKind = .cron)
      (hr : r ∈ s.runs) (hc : r.triggerKind = .cron) (hs : r.scheduleId = t.scheduleId) (ha : r.scheduledAt = t.scheduledAt)

variable {s s' s₁ s₂ : Store} {now : Time} {t : TriggerIdentity}

theorem Identifies.of_ok (h : s.insertTriggerIdentity t = .ok s₁)
    (ht : s'.triggerIdentities = s₁.triggerIdentities) : s.Identifies t s' := by
  simp only [insertTriggerIdentity] at h
  repeat' split at h
  all_goals cases h
  case _ hn _ _ hi _ =>
    constructor
    case apart =>
      intro u hu
      simp only [List.any_eq_true, not_exists, not_and, Bool.not_eq_true] at hn
      exact hn u hu
    case insert => rw [ht]; exact hi

theorem createRun_fires {new triggerId} :
    s.Fires ((s.createRun new triggerId now).persisted s) := by
  simp only [createRun]
  split
  case h_1 => rw [existingTarget_persisted]; exact .keeps rfl .refl
  case h_2 => exact .keeps rfl .refl
  case h_3 ht =>
    split
    case h_1 => rw [existingRun_persisted]; exact .keeps rfl .refl
    case h_2 => exact .keeps rfl .refl
    case h_3 hr =>
      have hi := Identifies.of_ok ht rfl
      obtain ⟨_, -, rfl⟩ := insertTriggerIdentity_eq ht
      obtain ⟨runs, hn, rfl⟩ := insertRun_eq hr
      exact .run ⟨hi.apart, hi.insert⟩ hn rfl ⟨rfl, rfl, rfl, rfl, rfl⟩

theorem createCronOccurrence_fires {new revision cron triggerId} (hk : new.idempotencyKey = none) :
    s.Fires ((s.createCronOccurrence new revision cron triggerId now).persisted s) := by
  simp only [createCronOccurrence]
  repeat' split
  any_goals exact .keeps rfl .refl
  case _ hc _ s₁ hf _ s₂ ht _ hr _ run hx =>
    have hi := Identifies.of_ok ht rfl
    obtain ⟨_, rfl⟩ := fence_eq hf
    obtain ⟨_, -, rfl⟩ := insertTriggerIdentity_eq ht
    have hm := List.mem_of_find?_eq_some hx
    have hx := List.find?_some hx
    simp only [Bool.and_eq_true, decide_eq_true_eq] at hx
    exact .orphan ⟨hi.apart, hi.insert⟩ rfl hm hx.right hx.left.left hx.left.right
  case _ hc _ s₁ hf _ s₂ ht _ s₃ hr =>
    have hi := Identifies.of_ok ht rfl
    obtain ⟨_, rfl⟩ := fence_eq hf
    obtain ⟨_, -, rfl⟩ := insertTriggerIdentity_eq ht
    obtain ⟨runs, hn, rfl⟩ := insertRun_eq hr
    refine .run ⟨hi.apart, hi.insert⟩ hn rfl ⟨rfl, rfl, ?_, rfl, hk.symm⟩
    exact (not_ne_iff.mp hc).symm

theorem createCronBatch_fires {new revision cron triggerId} :
    s.Fires ((s.createCronBatch new revision cron triggerId now).persisted s) := by
  simp only [createCronBatch]
  repeat' split
  any_goals exact .keeps rfl .refl
  case _ hc _ _ _ _ s₁ hf _ s₂ ht _ s₃ hb =>
    have hi := Identifies.of_ok ht rfl
    obtain ⟨_, rfl⟩ := fence_eq hf
    obtain ⟨_, -, rfl⟩ := insertTriggerIdentity_eq ht
    obtain ⟨batches, hn, rfl⟩ := insertBatch_eq hb
    refine .batch ⟨hi.apart, hi.insert⟩ rfl hn ⟨rfl, rfl, rfl, ?_, rfl⟩
    exact (not_ne_iff.mp hc).symm

theorem createBatch_fires {new triggerId} :
    s.Fires ((s.createBatch new triggerId now).persisted s) := by
  simp only [createBatch]
  repeat' split
  any_goals exact .keeps rfl .refl
  case _ ht _ _ hb =>
    have hi := Identifies.of_ok ht rfl
    obtain ⟨_, -, rfl⟩ := insertTriggerIdentity_eq ht
    obtain ⟨batches, hn, rfl⟩ := insertBatch_eq hb
    exact .batch ⟨hi.apart, hi.insert⟩ rfl hn ⟨rfl, rfl, rfl, rfl, rfl⟩

theorem retriggerBatchSnapshot_fires {source new scheduledAt triggerId} :
    s.Fires ((s.retriggerBatchSnapshot source new scheduledAt triggerId now).persisted s) := by
  simp only [retriggerBatchSnapshot]
  repeat' split
  any_goals exact .keeps rfl .refl
  case _ ht _ _ hb =>
    have hi := Identifies.of_ok ht rfl
    obtain ⟨_, -, rfl⟩ := insertTriggerIdentity_eq ht
    obtain ⟨batches, hn, rfl⟩ := insertBatch_eq hb
    exact .batch ⟨hi.apart, hi.insert⟩ rfl hn ⟨rfl, rfl, rfl, rfl, rfl⟩

theorem exec_fires (s : Store) {op : Op} (h : op.cronKey = none) : s.Fires (s.exec op) := by
  by_cases hw : .triggerIdentities ∈ op.writes
  case neg => exact .keeps ((s.exec_frame op).triggerIdentities hw) (s.exec_keeps op hw)
  case pos =>
    cases op
    case createRun => exact createRun_fires
    case createCronOccurrence => exact createCronOccurrence_fires h
    case createCronBatch => exact createCronBatch_fires
    case createBatch => exact createBatch_fires
    case retriggerBatchSnapshot => exact retriggerBatchSnapshot_fires
    all_goals simp [Op.writes, Op.writes.concluding] at hw

-- Runs, batches and trigger identities fit together.
structure Triggered (s : Store) : Prop where
  apart  : ∀ t₁ ∈ s.triggerIdentities, ∀ t₂ ∈ s.triggerIdentities, t₁.Conflicts t₂ → t₁ = t₂
  target : ∀ t ∈ s.triggerIdentities,
    (∃ r ∈ s.runs, t.OfRun r.origin) ∨ ∃ b ∈ s.batches, t.OfBatch b.origin
  run    : ∀ r ∈ s.runs, r.origin.IsItem ∨ ∃ t ∈ s.triggerIdentities, t.OfRun r.origin
  batch  : ∀ b ∈ s.batches, ∃ t ∈ s.triggerIdentities, t.OfBatch b.origin

namespace Triggered

theorem empty : Triggered .empty where
  apart _ h  := absurd h Table.not_mem_empty
  target _ h := absurd h Table.not_mem_empty
  run _ h    := absurd h Table.not_mem_empty
  batch _ h  := absurd h Table.not_mem_empty

theorem apart_insert (h : s.Triggered) (ht : s.Identifies t s') :
    ∀ t₁ ∈ s'.triggerIdentities, ∀ t₂ ∈ s'.triggerIdentities, t₁.Conflicts t₂ → t₁ = t₂ := by
  intro t₁ h₁ t₂ h₂ hc
  rw [Table.mem_of_insert ht.insert] at h₁ h₂
  rcases h₁ with h₁ | rfl <;> rcases h₂ with h₂ | rfl
  case inl.inl => exact h.apart t₁ h₁ t₂ h₂ hc
  case inl.inr =>
    have hc := TriggerIdentity.conflicts_symm hc
    simp [ht.apart t₁ h₁] at hc
  case inr.inl => simp [ht.apart t₂ h₂] at hc
  case inr.inr => rfl

theorem keeps (h : s.Triggered) (ht : s'.triggerIdentities = s.triggerIdentities)
    (hk : s.core.Keeps s'.core) : s'.Triggered where
  apart := ht ▸ h.apart
  target t hm := by
    rcases h.target t (ht ▸ hm) with ⟨r, hr, hf⟩ | ⟨b, hb, hf⟩
    case inl =>
      have ⟨r', hr', he⟩ := hk.runs.exists_right hr
      exact .inl ⟨r', hr', he ▸ hf⟩
    case inr =>
      have ⟨b', hb', he⟩ := hk.batches.exists_right hb
      exact .inr ⟨b', hb', he ▸ hf⟩
  run r hr := by
    rcases hk.runs.exists_left hr with ⟨r₀, hr₀, he⟩ | hi
    case inl => exact he ▸ ht ▸ h.run r₀ hr₀
    case inr => exact .inl hi
  batch b hb := by
    have ⟨b₀, hb₀, he⟩ := hk.batches.exists_left hb
    exact he ▸ ht ▸ h.batch b₀ hb₀

theorem exec (h : s.Triggered) {op : Op} (hk : op.cronKey = none) : (s.exec op).Triggered := by
  cases s.exec_fires hk
  case keeps ht hk => exact h.keeps ht hk
  case run t r ht hr hb hf =>
    have hi {u} := Table.mem_of_insert (b := u) ht.insert
    have hr {x} := Table.mem_of_insert (b := x) hr
    constructor
    case apart => exact h.apart_insert ht
    case target =>
      intro u hu
      rcases hi.mp hu with hu | rfl
      case inl => exact (h.target u hu).imp (fun ⟨x, hx, hf⟩ => ⟨x, hr.mpr (.inl hx), hf⟩) (hb ▸ id)
      case inr => exact .inl ⟨r, hr.mpr (.inr rfl), hf⟩
    case run =>
      intro x hx
      rcases hr.mp hx with hx | rfl
      case inl => exact (h.run x hx).imp_right fun ⟨u, hu, hf⟩ => ⟨u, hi.mpr (.inl hu), hf⟩
      case inr => exact .inr ⟨t, hi.mpr (.inr rfl), hf⟩
    case batch =>
      intro b hm
      have ⟨u, hu, hf⟩ := h.batch b (hb ▸ hm)
      exact ⟨u, hi.mpr (.inl hu), hf⟩
  case batch t b ht hr hb hf =>
    have hi {u} := Table.mem_of_insert (b := u) ht.insert
    have hb {x} := Table.mem_of_insert (b := x) hb
    constructor
    case apart => exact h.apart_insert ht
    case target =>
      intro u hu
      rcases hi.mp hu with hu | rfl
      case inl => exact (h.target u hu).imp (hr ▸ id) fun ⟨x, hx, hf⟩ => ⟨x, hb.mpr (.inl hx), hf⟩
      case inr => exact .inr ⟨b, hb.mpr (.inr rfl), hf⟩
    case run =>
      intro x hx
      exact (h.run x (hr ▸ hx)).imp_right fun ⟨u, hu, hf⟩ => ⟨u, hi.mpr (.inl hu), hf⟩
    case batch =>
      intro x hx
      rcases hb.mp hx with hx | rfl
      case inl =>
        have ⟨u, hu, hf⟩ := h.batch x hx
        exact ⟨u, hi.mpr (.inl hu), hf⟩
      case inr => exact ⟨t, hi.mpr (.inr rfl), hf⟩
  -- A cron run has an identity, and the new one would have been refused for it.
  case orphan t r ht hk hr hc hs ha =>
    rcases h.run r hr with hi | ⟨u, hu, hf⟩
    case inl => simp [Run.Origin.IsItem, Run.origin, hc] at hi
    case inr =>
      have hn := ht.apart u hu
      have hu : u.triggerKind = .cron := hf.triggerKind.trans hc
      simp [TriggerIdentity.Conflicts, hk, hu, hf.scheduleId, hf.scheduledAt, Run.origin, hs, ha] at hn

theorem run_keyless (h : s.Triggered) {ops : List Op} (v : keylessDatabase.Valid s ops) :
    (keylessDatabase.run s ops).Triggered :=
  v.invariant (fun _ _ h hk => h.exec hk.right) h

end Triggered

section Targets

variable {x y : TriggerTarget} {scheduleId : Uuid} {key : String} {instant : Time}

-- The run or batch was created under the idempotency key.
def HasKey (s : Store) (scheduleId : Uuid) (key : String) : TriggerTarget → Prop
  | .run id   => ∃ r ∈ s.runs, r.id = id ∧ r.scheduleId = scheduleId ∧ r.idempotencyKey = some key
  | .batch id => ∃ b ∈ s.batches, b.id = id ∧ b.scheduleId = scheduleId ∧
    ∃ t ∈ s.triggerIdentities, t.id = b.triggerIdentityId ∧ t.idempotencyKey = some key

-- The run or batch is a cron occurrence at the instant.
def OccursAt (s : Store) (scheduleId : Uuid) (instant : Time) : TriggerTarget → Prop
  | .run id   => ∃ r ∈ s.runs, r.id = id ∧ r.scheduleId = scheduleId ∧ r.triggerKind = .cron ∧
    r.scheduledAt = instant
  | .batch id => ∃ b ∈ s.batches, b.id = id ∧ b.scheduleId = scheduleId ∧ b.triggerKind = .cron ∧
    b.scheduledAt = instant

namespace Triggered

theorem hasKey_iff (h : s.Triggered) : s.HasKey scheduleId key x ↔
    ∃ t ∈ s.triggerIdentities, t.target = x ∧ t.scheduleId = scheduleId ∧ t.idempotencyKey = some key := by
  constructor
  case mp =>
    intro hx
    cases x
    case run =>
      obtain ⟨r, hr, rfl, hs, hk⟩ := hx
      rcases h.run r hr with hi | ⟨t, ht, hf⟩
      case inl => simp [Run.Origin.IsItem, Run.origin, hk] at hi
      case inr => exact ⟨t, ht, hf.target, hf.scheduleId.trans hs, hf.idempotencyKey.trans hk⟩
    case batch =>
      obtain ⟨b, hb, rfl, hs, u, hu, hi, hk⟩ := hx
      have ⟨t, ht, hf⟩ := h.batch b hb
      obtain rfl : u = t := Table.key_injOn hu ht <| hi.trans hf.id.symm
      exact ⟨u, hu, hf.target, hf.scheduleId.trans hs, hk⟩
  case mpr =>
    intro ⟨t, ht, hx, hs, hk⟩
    rcases h.target t ht with ⟨r, hr, hf⟩ | ⟨b, hb, hf⟩
    case inl =>
      obtain rfl := hx.symm.trans hf.target
      exact ⟨r, hr, rfl, hf.scheduleId.symm.trans hs, hf.idempotencyKey.symm.trans hk⟩
    case inr =>
      obtain rfl := hx.symm.trans hf.target
      exact ⟨b, hb, rfl, hf.scheduleId.symm.trans hs, t, ht, hf.id, hk⟩

theorem occursAt_iff (h : s.Triggered) : s.OccursAt scheduleId instant x ↔
    ∃ t ∈ s.triggerIdentities, t.target = x ∧ t.scheduleId = scheduleId ∧ t.triggerKind = .cron ∧
      t.scheduledAt = instant := by
  constructor
  case mp =>
    intro hx
    cases x
    case run =>
      obtain ⟨r, hr, rfl, hs, hk, ha⟩ := hx
      rcases h.run r hr with hi | ⟨t, ht, hf⟩
      case inl => simp [Run.Origin.IsItem, Run.origin, hk] at hi
      case inr =>
        exact ⟨t, ht, hf.target, hf.scheduleId.trans hs, hf.triggerKind.trans hk, hf.scheduledAt.trans ha⟩
    case batch =>
      obtain ⟨b, hb, rfl, hs, hk, ha⟩ := hx
      have ⟨t, ht, hf⟩ := h.batch b hb
      exact ⟨t, ht, hf.target, hf.scheduleId.trans hs, hf.triggerKind.trans hk, hf.scheduledAt.trans ha⟩
  case mpr =>
    intro ⟨t, ht, hx, hs, hk, ha⟩
    rcases h.target t ht with ⟨r, hr, hf⟩ | ⟨b, hb, hf⟩
    case inl =>
      obtain rfl := hx.symm.trans hf.target
      exact ⟨r, hr, rfl, hf.scheduleId.symm.trans hs, hf.triggerKind.symm.trans hk,
        hf.scheduledAt.symm.trans ha⟩
    case inr =>
      obtain rfl := hx.symm.trans hf.target
      exact ⟨b, hb, rfl, hf.scheduleId.symm.trans hs, hf.triggerKind.symm.trans hk,
        hf.scheduledAt.symm.trans ha⟩

theorem hasKey_unique (h : s.Triggered) (hx : s.HasKey scheduleId key x) (hy : s.HasKey scheduleId key y) :
    x = y := by
  obtain ⟨t, ht, rfl, hs, hk⟩ := h.hasKey_iff.mp hx
  obtain ⟨u, hu, rfl, hs', hk'⟩ := h.hasKey_iff.mp hy
  rw [h.apart t ht u hu]
  simp [TriggerIdentity.Conflicts, hs, hs', hk, hk']

theorem occursAt_unique (h : s.Triggered) (hx : s.OccursAt scheduleId instant x)
    (hy : s.OccursAt scheduleId instant y) : x = y := by
  obtain ⟨t, ht, rfl, hs, hk, ha⟩ := h.occursAt_iff.mp hx
  obtain ⟨u, hu, rfl, hs', hk', ha'⟩ := h.occursAt_iff.mp hy
  rw [h.apart t ht u hu]
  simp [TriggerIdentity.Conflicts, hs, hs', hk, hk', ha, ha']

end Triggered

-- Identities stay once they are there.
theorem Fires.mem_triggerIdentities (h : s.Fires s') (ht : t ∈ s.triggerIdentities) :
    t ∈ s'.triggerIdentities := by
  cases h
  case keeps he _ => exact he ▸ ht
  case run hi _ _ _ => exact Table.mem_of_insert hi.insert |>.mpr (.inl ht)
  case batch hi _ _ _ => exact Table.mem_of_insert hi.insert |>.mpr (.inl ht)
  case orphan hi _ _ _ _ _ => exact Table.mem_of_insert hi.insert |>.mpr (.inl ht)

theorem mem_triggerIdentities_run {ops : List Op} (v : keylessDatabase.Valid s ops)
    (ht : t ∈ s.triggerIdentities) : t ∈ (keylessDatabase.run s ops).triggerIdentities :=
  v.invariant (I := (t ∈ ·.triggerIdentities))
    (fun s _ ht hk => (s.exec_fires hk.right).mem_triggerIdentities ht) ht

end Targets

section Repeats

variable {x : TriggerTarget} {scheduleId : Uuid} {kind : TriggerKind} {instant : Time}
  {key : Option String}

-- The trigger with this key, or with this cron instant, was used for `x`.
def Taken (s : Store) (scheduleId : Uuid) (kind : TriggerKind) (instant : Time) (key : Option String)
    (x : TriggerTarget) : Prop :=
  (∃ k ∈ key, s.HasKey scheduleId k x) ∨ (kind = .cron ∧ s.OccursAt scheduleId instant x)

-- The call fails or returns something that is there already; either way nothing is changed.
def Repeats {α : Type} (s : Store) (call : Transaction α) (existing : α → Prop) : Prop :=
  (∃ e, call = .error e) ∨ ∃ result, call = .ok (result, s) ∧ existing result

-- A trigger that was used is not given another identity.
theorem Triggered.not_identifies (h : s.Triggered) (ht : s₁.Identifies t s')
    (hs : s₁.triggerIdentities = s.triggerIdentities)
    (hx : s.Taken t.scheduleId t.triggerKind t.scheduledAt t.idempotencyKey x) : False := by
  rcases hx with ⟨k, hk, hx⟩ | ⟨hc, hx⟩
  case inl =>
    obtain ⟨u, hu, -, hs', hk'⟩ := h.hasKey_iff.mp hx
    have hn := ht.apart u (hs ▸ hu)
    simp [TriggerIdentity.Conflicts, hs', hk', Option.mem_def.mp hk] at hn
  case inr =>
    obtain ⟨u, hu, -, hs', hk', ha'⟩ := h.occursAt_iff.mp hx
    have hn := ht.apart u (hs ▸ hu)
    simp [TriggerIdentity.Conflicts, hs', hc, hk', ha'] at hn

theorem triggerTargetForIdempotency_hasKey {k : String} (h : s.Triggered)
    (hx : s.triggerTargetForIdempotency scheduleId k = some x) : s.HasKey scheduleId k x := by
  obtain ⟨t, ht, rfl⟩ := Option.map_eq_some_iff.mp hx
  have hm := List.mem_of_find?_eq_some ht
  have ht := List.find?_some ht
  simp only [Bool.and_eq_true, decide_eq_true_eq] at ht
  exact h.hasKey_iff.mpr ⟨t, hm, rfl, ht.left, ht.right⟩

theorem triggerTargetForCron_occursAt (h : s.Triggered)
    (hx : s.triggerTargetForCron scheduleId instant = some x) : s.OccursAt scheduleId instant x := by
  obtain ⟨t, ht, rfl⟩ := Option.map_eq_some_iff.mp hx
  have hm := List.mem_of_find?_eq_some ht
  have ht := List.find?_some ht
  simp only [Bool.and_eq_true, decide_eq_true_eq] at ht
  exact h.occursAt_iff.mpr ⟨t, hm, rfl, ht.left.left, ht.left.right, ht.right⟩

theorem findBatchForTrigger_taken {batch : Batch} (h : s.Triggered) (hk : key = none → kind = .cron)
    (hb : s.findBatchForTrigger scheduleId instant kind key = some batch) :
    batch ∈ s.batches ∧ s.Taken scheduleId kind instant key (.batch batch.id) := by
  obtain ⟨t, ht, hb⟩ := List.exists_of_findSome?_eq_some hb
  obtain ⟨hm, ht⟩ := Table.mem_select.mp ht
  split at hb
  case h_2 => contradiction
  case h_1 id hx =>
    obtain rfl : batch.id = id := Table.key_of_get? hb
    refine ⟨Table.mem_of_get? hb, ?_⟩
    rcases key with - | k
    case some =>
      simp only [Bool.and_eq_true, decide_eq_true_eq] at ht
      exact .inl ⟨k, rfl, h.hasKey_iff.mpr ⟨t, hm, hx, ht.left, ht.right⟩⟩
    case none =>
      have hk := hk rfl
      simp only [Bool.and_eq_true, decide_eq_true_eq, hk] at ht
      exact .inr ⟨hk, h.occursAt_iff.mpr ⟨t, hm, hx, ht.left.left, ht.right, ht.left.right⟩⟩

theorem existingTarget_repeats {new} (h : s.Triggered) : s.Repeats (s.existingTarget new) fun r => r ∈ s.runs ∧
    s.Taken new.scheduleId new.triggerKind new.scheduledAt new.idempotencyKey (.run r.id) := by
  simp only [existingTarget]
  split
  case h_1 => exact .inl ⟨_, rfl⟩
  case h_2 => exact .inl ⟨_, rfl⟩
  case h_3 id hx =>
    split
    case h_1 => exact .inl ⟨_, rfl⟩
    case h_2 run hr =>
      obtain rfl : run.id = id := Table.key_of_get? hr
      refine .inr ⟨run, rfl, Table.mem_of_get? hr, ?_⟩
      split at hx
      case h_1 key hk => exact .inl ⟨key, hk, triggerTargetForIdempotency_hasKey h hx⟩
      case h_2 =>
        split at hx
        case isTrue hc => exact .inr ⟨hc, triggerTargetForCron_occursAt h hx⟩
        case isFalse => contradiction

theorem createRun_repeats {new triggerId} (h : s.Triggered)
    (hx : s.Taken new.scheduleId new.triggerKind new.scheduledAt new.idempotencyKey x) :
    s.Repeats (s.createRun new triggerId now) fun r => r ∈ s.runs ∧
      s.Taken new.scheduleId new.triggerKind new.scheduledAt new.idempotencyKey (.run r.id) := by
  simp only [createRun]
  split
  case h_1 => exact existingTarget_repeats h
  case h_2 => exact .inl ⟨_, rfl⟩
  case h_3 ht => exact (h.not_identifies (.of_ok ht rfl) rfl hx).elim

theorem createBatch_repeats {new triggerId} (h : s.Triggered)
    (hx : s.Taken new.scheduleId new.triggerKind new.scheduledAt new.idempotencyKey x) :
    s.Repeats (s.createBatch new triggerId now) fun b => b ∈ s.batches ∧
      s.Taken new.scheduleId new.triggerKind new.scheduledAt new.idempotencyKey (.batch b.id) := by
  have hk : new.idempotencyKey = none → new.triggerKind = .cron := by
    intro hk
    rcases hx with ⟨k, hk', -⟩ | ⟨hc, -⟩
    case inl => simp [hk] at hk'
    case inr => exact hc
  simp only [createBatch]
  repeat' split
  any_goals exact .inl ⟨_, rfl⟩
  case _ hb => exact .inr ⟨_, rfl, findBatchForTrigger_taken h hk hb⟩
  case _ ht _ _ _ => exact (h.not_identifies (.of_ok ht rfl) rfl hx).elim

-- A schedule that changed since it was read is another way to refuse an occurrence.
def Existing (s : Store) (scheduleId : Uuid) (instant : Time) : CronOccurrenceResult → Prop
  | .applied r     => r ∈ s.runs ∧ s.OccursAt scheduleId instant (.run r.id)
  | .staleSchedule => True

def ExistingBatch (s : Store) (scheduleId : Uuid) (instant : Time) : CronBatchOccurrenceResult → Prop
  | .applied b     => b ∈ s.batches ∧ s.OccursAt scheduleId instant (.batch b.id)
  | .staleSchedule => True

theorem createCronOccurrence_repeats {new revision cron triggerId} (h : s.Triggered)
    (hx : s.OccursAt new.scheduleId new.scheduledAt x) :
    s.Repeats (s.createCronOccurrence new revision cron triggerId now)
      (s.Existing new.scheduleId new.scheduledAt) := by
  simp only [createCronOccurrence]
  repeat' split
  any_goals exact .inl ⟨_, rfl⟩
  case _ => exact .inr ⟨_, rfl, trivial⟩
  case _ id hi _ run hr =>
    obtain rfl : run.id = id := Table.key_of_get? hr
    exact .inr ⟨_, rfl, Table.mem_of_get? hr, triggerTargetForCron_occursAt h hi⟩
  case _ hf _ _ ht _ _ _ _ _ =>
    obtain ⟨_, rfl⟩ := fence_eq hf
    exact (h.not_identifies (.of_ok ht rfl) rfl (.inr ⟨rfl, hx⟩)).elim
  case _ hf _ _ ht _ _ _ =>
    obtain ⟨_, rfl⟩ := fence_eq hf
    exact (h.not_identifies (.of_ok ht rfl) rfl (.inr ⟨rfl, hx⟩)).elim

theorem createCronBatch_repeats {new revision cron triggerId} (h : s.Triggered)
    (hx : s.OccursAt new.scheduleId new.scheduledAt x) :
    s.Repeats (s.createCronBatch new revision cron triggerId now)
      (s.ExistingBatch new.scheduleId new.scheduledAt) := by
  simp only [createCronBatch]
  repeat' split
  any_goals exact .inl ⟨_, rfl⟩
  case _ => exact .inr ⟨_, rfl, trivial⟩
  case _ hb =>
    obtain ⟨hm, hb⟩ := findBatchForTrigger_taken h (fun _ => rfl) hb
    refine .inr ⟨_, rfl, hm, ?_⟩
    rcases hb with ⟨_, hk, -⟩ | ⟨-, hb⟩
    case inl => contradiction
    case inr => exact hb
  case _ hf _ _ ht _ _ _ =>
    obtain ⟨_, rfl⟩ := fence_eq hf
    exact (h.not_identifies (.of_ok ht rfl) rfl (.inr ⟨rfl, hx⟩)).elim

end Repeats

-- Whether the run or batch is there.
def Exists (s : Store) : TriggerTarget → Prop
  | .run id   => ∃ r ∈ s.runs, r.id = id
  | .batch id => ∃ b ∈ s.batches, b.id = id

end Store

namespace Sample

def hourly : CronSpec where
  expression := "0 0 * * * *"
  timezone   := "UTC"

def cronSchedule : NewSchedule :=
  { schedule with spec := { schedule.spec with cron := some hourly } }

def occurrence (key : Option String) : NewRun :=
  { run with triggerKind := .cron, scheduledAt := 3600000, idempotencyKey := key }

-- A run and a batch, and the same keys and instants once more.
def triggered : List Op := [
    .createSchedule cronSchedule 0,
    .createCronOccurrence (occurrence none) 1 hourly 20 3600000,
    .createBatch { batch with idempotencyKey := some "key" } 21 3600000
  ]

-- A cron occurrence that is given a key, and a batch under the same key.
def keyedOccurrence : List Op := [
    .createSchedule cronSchedule 0,
    .createCronOccurrence (occurrence (some "key")) 1 hourly 20 3600000,
    .createBatch { batch with idempotencyKey := some "key" } 21 3600000
  ]

end Sample

namespace Store

open Sample

end Store

end Scheduler
