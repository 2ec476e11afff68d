import TaskScheduler.Cron.Fencing

namespace Scheduler

open Schedule

namespace Store

variable {rt : CronRuntime} {s s' s₁ s₂ : Store} {record r : Schedule} {cron : CronSpec} {next now : Time}
  {b : Bool} {e : Option StoreError} {draws : Uuid → Time → Draw} {due : List Time}
  {records : List Schedule} {P Q : Uuid → Time → Prop} {id : Uuid} {instant : Time}

-- Nothing but cursors was changed in the schedules.
def Unedited (s s' : Store) : Prop :=
  ∀ r ∈ s.schedules, ∃ r' ∈ s'.schedules, r'.content = r.content

theorem Unedited.admits (h : s.Unedited s') (ha : ∃ r ∈ s.schedules, Admits r record cron) :
    ∃ r ∈ s'.schedules, Admits r record cron := by
  obtain ⟨r, hr, ha⟩ := ha
  have ⟨r', hr', hc⟩ := h r hr
  refine ⟨r', hr', ?_⟩
  rw [content_eq hc]
  exact ⟨ha.id, ha.revision, ha.enabled, ha.expression, ha.timezone⟩

-- A pass has let schedules fire at some of the instants `P`.
structure Grows (P : Uuid → Time → Prop) (s s' : Store) : Prop where
  triggered : s'.Triggered
  unedited  : s.Unedited s'
  keeps     : ∀ id instant x, s.OccursAt id instant x → s'.OccursAt id instant x
  only      : ∀ id instant x, s'.OccursAt id instant x → s.OccursAt id instant x ∨ P id instant

namespace Grows

theorem refl (h : s.Triggered) : s.Grows P s where
  triggered     := h
  unedited r hr := ⟨r, hr, rfl⟩
  keeps _ _ _   := fun hx => hx
  only _ _ _    := .inl

theorem trans (h₁ : s.Grows P s₁) (h₂ : s₁.Grows P s₂) : s.Grows P s₂ where
  triggered := h₂.triggered
  unedited r hr := by
    have ⟨r₁, hr₁, hc₁⟩ := h₁.unedited r hr
    have ⟨r₂, hr₂, hc₂⟩ := h₂.unedited r₁ hr₁
    exact ⟨r₂, hr₂, hc₂.trans hc₁⟩
  keeps id o x hx := h₂.keeps id o x <| h₁.keeps id o x hx
  only id o x hx  := (h₂.only id o x hx).elim (h₁.only id o x) .inr

theorem mono (h : s.Grows P s') (hp : ∀ id instant, P id instant → Q id instant) : s.Grows Q s' where
  triggered      := h.triggered
  unedited       := h.unedited
  keeps          := h.keeps
  only id o x hx := (h.only id o x hx).imp_right (hp id o)

theorem fired (h : s.Grows P s') (hf : s.Fired id instant) : s'.Fired id instant :=
  have ⟨x, hx⟩ := hf
  ⟨x, h.keeps id instant x hx⟩

theorem fired_only (h : s.Grows P s') (hf : s'.Fired id instant) : s.Fired id instant ∨ P id instant :=
  have ⟨x, hx⟩ := hf
  (h.only id instant x hx).imp_left (⟨x, ·⟩)

end Grows

namespace Occurrence

variable (h : Occurrence rt s record cron next b s')
include h

theorem grows (ht : s.Triggered) (ht' : s'.Triggered) :
    s.Grows (fun id instant => id = record.id ∧ instant = next) s' := by
  cases h
  case stale => exact .refl ht
  case repeated => exact .refl ht
  case inserted hs _ hx =>
    constructor
    case triggered => exact ht'
    case unedited =>
      intro r hr
      refine ⟨_, hs.exists_right hr, ?_⟩
      split <;> rfl
    case keeps => exact fun id o y hy => hx id o y |>.mpr <| .inl hy
    case only => exact fun id o y hy => (hx id o y |>.mp hy).imp_right fun ⟨hi, ho, _⟩ => ⟨hi, ho⟩

-- The inner loop goes on for a schedule that is still as the record says.
theorem fired (ha : ∃ r ∈ s.schedules, Admits r record cron) : b = true ∧ s'.Fired record.id next := by
  cases h
  case stale hn =>
    have ⟨r, hr, ha⟩ := ha
    exact absurd ha <| hn r hr
  case repeated hf => exact ⟨rfl, hf⟩
  case inserted hx => exact ⟨rfl, _, hx _ _ _ |>.mpr <| .inr ⟨rfl, rfl, rfl⟩⟩

end Occurrence

theorem materializeSchedule_grows (ht : s.Triggered)
    (h : s.materializeSchedule rt record cron draws due = (s', e)) :
    s.Grows (fun id instant => id = record.id ∧ instant ∈ due) s' := by
  fun_induction materializeSchedule rt record cron draws s due
  case case1 =>
    cases h
    exact .refl ht
  case case2 =>
    cases h
    exact .refl ht
  case case3 hm =>
    cases h
    have ht' := materializeOccurrence_triggered ht hm
    refine (materializeOccurrence_occurrence ht hm).grows ht ht' |>.mono ?_
    rintro id o ⟨hi, rfl⟩
    exact ⟨hi, List.mem_cons_self⟩
  case case4 hm hi =>
    have ht' := materializeOccurrence_triggered ht hm
    refine .trans (.mono ((materializeOccurrence_occurrence ht hm).grows ht ht') ?_) (.mono (hi ht' h) ?_)
    case refine_1 =>
      rintro id o ⟨hi, rfl⟩
      exact ⟨hi, List.mem_cons_self⟩
    case refine_2 => exact fun _ _ ⟨hi, ho⟩ => ⟨hi, List.mem_cons_of_mem _ ho⟩

theorem materializeSchedule_fired (ht : s.Triggered) (ha : ∃ r ∈ s.schedules, Admits r record cron)
    (h : s.materializeSchedule rt record cron draws due = (s', none)) :
    ∀ instant ∈ due, s'.Fired record.id instant := by
  fun_induction materializeSchedule rt record cron draws s due
  case case1 => exact fun _ ho => absurd ho List.not_mem_nil
  case case2 => cases h
  case case3 hm =>
    have hf := (materializeOccurrence_occurrence ht hm).fired ha
    simp at hf
  case case4 hm hi =>
    have ht' := materializeOccurrence_triggered ht hm
    have hx := materializeOccurrence_occurrence ht hm
    have hg := hx.grows ht ht'
    refine List.forall_mem_cons.mpr ⟨?_, hi ht' (hg.unedited.admits ha) h⟩
    exact (materializeSchedule_grows ht' h).fired (hx.fired ha).right

-- The instants at which a pass that has read `records` may let schedules fire.
def Due (rt : CronRuntime) (now : Time) (records : List Schedule) (id : Uuid) (instant : Time) : Prop :=
  ∃ record ∈ records, record.id = id ∧ ∃ cron due, record.spec.cron = some cron ∧
    rt.calendar.dueCronBatch cron record.cursor now = .ok due ∧ instant ∈ due

theorem Due.cons (h : Due rt now records id instant) : Due rt now (record :: records) id instant :=
  have ⟨r, hr, h⟩ := h
  ⟨r, List.mem_cons_of_mem _ hr, h⟩

theorem Due.head (hc : record.spec.cron = some cron)
    (hd : rt.calendar.dueCronBatch cron record.cursor now = .ok due) (hi : id = record.id ∧ instant ∈ due) :
    Due rt now (record :: records) id instant :=
  ⟨record, List.mem_cons_self, hi.left.symm, cron, due, hc, hd, hi.right⟩

theorem materializeCron_grows (ht : s.Triggered) (h : materializeCron rt now draws s records = (s', e)) :
    s.Grows (Due rt now records) s' := by
  fun_induction materializeCron rt now draws s records
  case case1 | case3 =>
    cases h
    exact .refl ht
  case case2 hi => exact (hi ht h).mono fun _ _ => .cons
  case case4 hc _ hd _ _ hm =>
    cases h
    exact (materializeSchedule_grows ht hm).mono fun _ _ => .head hc hd
  case case5 hc _ hd _ hm hi =>
    have hg := materializeSchedule_grows ht hm
    exact (hg.mono fun _ _ => .head hc hd).trans <| (hi hg.triggered h).mono fun _ _ => .cons

theorem materializeCron_fired (ht : s.Triggered) (h : materializeCron rt now draws s records = (s', none))
    (hr : record ∈ records) (hc : record.spec.cron = some cron)
    (hd : rt.calendar.dueCronBatch cron record.cursor now = .ok due)
    (ha : ∃ r ∈ s.schedules, Admits r record cron) : ∀ instant ∈ due, s'.Fired record.id instant := by
  fun_induction materializeCron rt now draws s records
  case case1 => exact absurd hr List.not_mem_nil
  case case2 hn hi =>
    cases hr
    case head => simp [hn] at hc
    case tail hr => exact hi ht h hr ha
  case case3 => cases h
  case case4 => cases h
  case case5 hc' _ hd' _ hm hi =>
    have hg := materializeSchedule_grows ht hm
    cases hr
    case head =>
      cases hc.symm.trans hc'
      cases hd.symm.trans hd'
      intro o ho
      exact (materializeCron_grows hg.triggered h).fired <| materializeSchedule_fired ht ha hm o ho
    case tail hr => exact hi hg.triggered h hr (hg.unedited.admits ha)

-- A pass that fails nowhere has asked the calendar for every schedule.
theorem materializeCron_due (h : materializeCron rt now draws s records = (s', none)) (hr : record ∈ records)
    (hc : record.spec.cron = some cron) :
    ∃ due, rt.calendar.dueCronBatch cron record.cursor now = .ok due := by
  fun_induction materializeCron rt now draws s records
  case case1 => exact absurd hr List.not_mem_nil
  case case2 hn hi =>
    cases hr
    case head => simp [hn] at hc
    case tail hr => exact hi h hr
  case case3 => cases h
  case case4 => cases h
  case case5 hc' _ hd' _ _ hi =>
    cases hr
    case head =>
      cases hc.symm.trans hc'
      exact ⟨_, hd'⟩
    case tail hr => exact hi h hr

end Store

-- An uninterrupted pass is a sequence of steps of it.
namespace CronState

variable {rt : CronRuntime} {σ : CronState} {i : Nat} {now : Time} {draws : Uuid → Time → Draw}
  {todo : List Schedule} {record : Schedule} {cron : CronSpec} {due : List Time} {s' : Store}

-- The inner loop of the pass is over.
def Idle (σ : CronState) (i : Nat) (now : Time) (todo : List Schedule) : Prop :=
  ∃ f, σ.passes i = some (.working now todo f) ∧ ∀ g ∈ f, g.due = []

theorem step_idle (h : σ.Idle i now todo) (draw : Draw) :
    σ.exec rt (.step i draw) = σ.advance rt i now todo := by
  obtain ⟨f, hp, hf⟩ := h
  simp only [exec, hp]
  rcases f with - | ⟨_, _, _ | _⟩
  case none => rfl
  case some.nil => rfl
  case some.cons => simp at hf

theorem materializeSchedule_steps
    (hp : σ.passes i = some (.working now todo (some { record, cron, due }))) {e : Option StoreError}
    (h : σ.store.materializeSchedule rt record cron draws due = (s', e)) :
    ∃ as : List Draw, ((cronMachine rt).run σ (as.map (.step i))).store = s' ∧
      (e = none → ((cronMachine rt).run σ (as.map (.step i))).Idle i now todo) := by
  induction due generalizing σ
  case nil =>
    cases h
    exact ⟨[], rfl, fun _ => ⟨_, hp, by simp⟩⟩
  case cons next due hi =>
    have hs : σ.exec rt (.step i (draws record.id next)) =
        σ.fire rt i now todo record cron next due (draws record.id next) := by
      simp only [exec, hp]
    simp only [Store.materializeSchedule] at h
    simp only [fire] at hs
    split at h
    case h_1 hm =>
      cases h
      refine ⟨[draws record.id next], ?_, by rintro ⟨⟩⟩
      simp [cronMachine, hs, hm, setPass]
    case h_2 hm =>
      cases h
      refine ⟨[draws record.id next], ?_, fun _ => ⟨none, ?_, by simp⟩⟩
      case refine_1 => simp [cronMachine, hs, hm, setPass]
      case refine_2 => simp [cronMachine, hs, hm, setPass]
    case h_3 s₁ hm =>
      rw [hm] at hs
      obtain ⟨as, ha, hx⟩ := hi (σ := σ.exec rt (.step i (draws record.id next)))
        (by simp [hs, setPass]) (by simpa [hs, setPass] using h)
      exact ⟨draws record.id next :: as, ha, hx⟩

theorem materializeCron_steps (hp : σ.Idle i now todo) {e : Option StoreError}
    (h : Store.materializeCron rt now draws σ.store todo = (s', e)) :
    ∃ as : List Draw, ((cronMachine rt).run σ (as.map (.step i))).store = s' := by
  induction todo generalizing σ
  case nil =>
    cases h
    exact ⟨[], rfl⟩
  case cons record todo hi =>
    have hs : σ.exec rt (.step i ⟨0, 0, 0⟩) = _ := step_idle hp _
    simp only [Store.materializeCron] at h
    simp only [advance] at hs
    split at h
    case h_1 hc =>
      rw [hc] at hs
      obtain ⟨as, ha⟩ := hi (σ := σ.exec rt (.step i ⟨0, 0, 0⟩)) ⟨none, by simp [hs, setPass], by simp⟩
        (by simpa [hs, setPass] using h)
      exact ⟨⟨0, 0, 0⟩ :: as, ha⟩
    case h_2 cron hc =>
      simp only [hc] at hs
      split at h
      case h_1 hd =>
        cases h
        exact ⟨[], rfl⟩
      case h_2 due hd =>
        simp only [hd] at hs
        have hw : (σ.exec rt (.step i ⟨0, 0, 0⟩)).passes i =
            some (.working now todo (some { record, cron, due })) := by simp [hs, setPass]
        have hst : (σ.exec rt (.step i ⟨0, 0, 0⟩)).store = σ.store := by simp [hs, setPass]
        split at h
        case h_1 hm =>
          cases h
          obtain ⟨as, ha, _⟩ := materializeSchedule_steps hw (hst ▸ hm)
          exact ⟨⟨0, 0, 0⟩ :: as, ha⟩
        case h_2 hm =>
          obtain ⟨as, ha, hx⟩ := materializeSchedule_steps hw (hst ▸ hm)
          obtain ⟨bs, hb⟩ := hi (hx rfl) (ha ▸ h)
          refine ⟨⟨0, 0, 0⟩ :: as ++ bs, ?_⟩
          rw [List.map_append, Machine.run_append]
          exact hb

end CronState

end Scheduler
