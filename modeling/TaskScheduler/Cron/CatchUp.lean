import TaskScheduler.Cron.Pass

namespace Scheduler

open Schedule

namespace CronState

variable {rt : CronRuntime} {σ σ' : CronState} {a : CronAction} {as : List CronAction} {id : Uuid}
  {cron : CronSpec} {start : Time} {Occurs : CronSpec → Time → Prop}

-- The schedule is enabled, with this cron expression and timezone.
def Runs (σ : CronState) (id : Uuid) (cron : CronSpec) : Prop :=
  ∃ r ∈ σ.store.schedules, r.id = id ∧ r.enabled ∧
    r.cronIdentity = (some cron.expression, some cron.timezone)

-- After `start` the schedule has fired at the occurrences up to its cursor, and at no others.
def CaughtUp (Occurs : CronSpec → Time → Prop) (σ : CronState) (id : Uuid) (cron : CronSpec) (start : Time) : Prop :=
  ∃ r ∈ σ.store.schedules, r.id = id ∧ start ≤ r.cursor ∧
    ∀ o, start < o → (σ.store.Fired id o ↔ Occurs cron o ∧ o ≤ r.cursor)

theorem Inserts.cron_eq {s' : Store} {instant : Time} {x : TriggerTarget} {q : Pass} {record r : Schedule}
    {cron' : CronSpec} (hi : Inserts rt σ s' instant x q record r) (hc : r.Columns)
    (hr : r.cronIdentity = (some cron.expression, some cron.timezone)) (hs : record.spec.cron = some cron') :
    cron' = cron := by
  have hs' : r.spec.cron = some cron' := by
    rw [content_eq hi.content]
    exact hs
  simp only [Schedule.cronIdentity, hc.expression, hc.timezone, hs', Option.map_some, Prod.mk.injEq,
    Option.some.injEq] at hr
  cases cron
  cases cron'
  simpa using hr

theorem CaughtUp.inserts (hf : rt.calendar.First Occurs) (h : σ.CaughtUp Occurs id cron start)
    (hs : σ.Sound rt) (hr : σ.Runs id cron) {instant : Time} {x : TriggerTarget} {q : Pass}
    {record r : Schedule} (hi : Inserts rt σ σ'.store instant x q record r) (hid : record.id = id) :
    σ'.CaughtUp Occurs id cron start := by
  obtain ⟨r₁, hr₁, rfl, hl, hc⟩ := h
  obtain ⟨r₂, hr₂, hi₂, _, hx⟩ := hr
  obtain rfl : r₂ = r₁ := Table.key_injOn hr₂ hr₁ hi₂
  obtain rfl : r = r₂ := Table.key_injOn hi.current hr₂ <| hi.id.trans hid
  obtain ⟨cron', done, rest, hs', hd, hdone⟩ := hi.due
  obtain rfl := hi.cron_eq (hs.columns r hr₂) hx hs'
  have hfired o : σ'.store.Fired r.id o ↔ σ.store.Fired r.id o ∨ o = instant := by
    constructor
    case mp =>
      intro ⟨y, hy⟩
      exact (hi.occursAt r.id o y |>.mp hy).imp (⟨y, ·⟩) (·.right.left)
    case mpr =>
      rintro (⟨y, hy⟩ | rfl)
      case inl => exact ⟨y, hi.occursAt _ _ _ |>.mpr <| .inl hy⟩
      case inr => exact ⟨x, hi.occursAt _ _ _ |>.mpr <| .inr ⟨hi.id, rfl, rfl⟩⟩
  have ho : Occurs cron' instant :=
    (hf.mem_due_iff hd |>.mp <| List.mem_append_right done List.mem_cons_self).right.right.left
  have hm := hi.schedules.exists_right hr₂
  rw [if_pos hi.id] at hm
  refine ⟨_, hm, rfl, ?_, fun o hso => ?_⟩
  case refine_1 =>
    rw [Store.cursor_advanced hi.createdAt]
    exact hl.trans <| le_max_right ..
  case refine_2 =>
    rw [hfired, hc o hso, Store.cursor_advanced hi.createdAt, le_max_iff]
    constructor
    case mp =>
      rintro (⟨ho, hle⟩ | rfl)
      case inl => exact ⟨ho, .inr hle⟩
      case inr => exact ⟨ho, .inl le_rfl⟩
    case mpr =>
      rintro ⟨ho, hle⟩
      by_cases hr : o ≤ r.cursor
      case pos => exact .inl ⟨ho, hr⟩
      case neg =>
        have hle := hle.resolve_right hr
        rcases hle.lt_or_eq with hlt | he
        case inr => exact .inr he
        case inl =>
          -- It comes before the instant in the list of the pass, which has dealt with it.
          have hd := hf.mem_of_lt hd (hi.cursor.trans_lt <| not_le.mp hr) ho hlt
          exact .inl <| hc o hso |>.mp <| hid ▸ hdone o hd

theorem CaughtUp.moves (hf : rt.calendar.First Occurs) (h : σ.CaughtUp Occurs id cron start)
    (hs : σ.Sound rt) (hm : Moves rt σ a σ') (hr : σ.Runs id cron) (hr' : σ'.Runs id cron) :
    σ'.CaughtUp Occurs id cron start := by
  by_cases hn : ∃ o x, σ'.store.OccursAt id o x ∧ ¬σ.store.OccursAt id o x
  case pos =>
    have ⟨o, x, hx, hn⟩ := hn
    have ⟨_, _, _, _, _, hid, hi⟩ := hm.inserts hs hx hn
    exact h.inserts hf hs hr hi hid
  case neg =>
    have hl := hm.later hs
    have hfired o : σ'.store.Fired id o ↔ σ.store.Fired id o := by
      refine ⟨fun ⟨x, hx⟩ => ⟨x, ?_⟩, hl.fired id o⟩
      by_contra hx'
      exact hn ⟨o, x, hx, hx'⟩
    obtain ⟨r, hm₀, rfl, hle, hc⟩ := h
    obtain ⟨r', hm', hi', _, hx'⟩ := hr'
    obtain ⟨r₁, hm₁, hi₁, he, hx⟩ := hr
    obtain rfl : r₁ = r := Table.key_injOn hm₁ hm₀ hi₁
    have hcursor : r'.cursor = r₁.cursor := by
      cases hm.changes hs hm₀ hm' hi'
      case kept h => rw [h]
      case edited h _ _ _ => simp [cursor, h.kept (hx'.trans hx.symm) (.inl he), h.createdAt]
      case advanced hy hn' => exact absurd ⟨_, _, hy, hn'⟩ hn
    refine ⟨r', hm', hi', hcursor ▸ hle, fun o ho => ?_⟩
    rw [hfired, hc o ho, hcursor]

theorem CaughtUp.run (hf : rt.calendar.First Occurs) (h : σ.CaughtUp Occurs id cron start)
    (hs : σ.Sound rt) (v : (cronMachine rt).Valid σ as)
    (hr : (cronMachine rt).Along (·.Runs id cron) σ as) :
    ((cronMachine rt).run σ as).CaughtUp Occurs id cron start := by
  induction v
  case nil => exact h
  case cons σ a as ha _ hi =>
    have hm : Moves rt σ a _ := exec_moves hs.triggered ha
    have hr' : (σ.exec rt a).Runs id cron := by
      cases as
      case nil => exact hr.right
      case cons => exact hr.right.left
    exact hi (h.moves hf hs hm hr.left hr') (hs.moves hm) hr.right

-- The state from which a schedule is followed: nothing beyond its cursor is there yet.
theorem CaughtUp.of_start {r : Schedule} (hr : r ∈ σ.store.schedules)
    (hn : ∀ o, r.cursor < o → ¬σ.store.Fired r.id o) : σ.CaughtUp Occurs r.id cron r.cursor := by
  refine ⟨r, hr, rfl, le_refl _, fun o ho => ?_⟩
  simp [hn o ho, ho]

-- As long as the clock has not gone backwards, no cursor is behind.
theorem Timely.not_fired (h : σ.Timely) {r : Schedule} (hr : r ∈ σ.store.schedules) {o : Time}
    (ho : r.cursor < o) : ¬σ.store.Fired r.id o := by
  intro hf
  obtain ⟨_, r', hr', hi, t, ht, hl⟩ := h.fired r.id o hf
  obtain rfl : r' = r := Table.key_injOn hr' hr hi
  simp only [cursor, Option.mem_def.mp ht, Option.getD_some] at ho
  exact ho.not_ge hl

-- What a pass does that is not interrupted and fails nowhere.
theorem pass_fires {i : Nat} {now : Time} {todo : List Schedule} {draws : Uuid → Time → Draw} {s' : Store}
    {record r : Schedule} (hf : rt.calendar.First Occurs) (hs : σ.Sound rt)
    (hp : σ.passes i = some (.working now todo none)) (hm : record ∈ todo)
    (hc : record.spec.cron = some cron) (hr : r ∈ σ.store.schedules) (hi : r.id = record.id)
    (hv : r.revision = record.revision)
    (h : Store.materializeCron rt now draws σ.store todo = (s', none)) (o : Time) :
    s'.Fired record.id o ↔ σ.store.Fired record.id o ∨ record.cursor < o ∧ o ≤ now ∧ Occurs cron o ∧
      {p | record.cursor < p ∧ p < o ∧ Occurs cron p}.ncard < 1000 := by
  have hp := hs.passes i _ hp
  have hm' : record ∈ (Pass.working now todo none).records := hm
  have ⟨r', hr', hv'⟩ := hp.current record hm'
  obtain rfl : r' = r := Table.key_injOn hr' hr <| hv'.id.trans hi.symm
  have ⟨hx, _⟩ := hv'.same hv.le
  have hcol := hs.columns r' hr
  have hspec : r'.spec = record.spec := by rw [content_eq hx]
  have ha : Store.Admits r' record cron := {
    id         := hi
    revision   := hv
    enabled    := by
      rw [content_eq hx]
      exact hp.enabled record hm'
    expression := by simp [hcol.expression, hspec, hc]
    timezone   := by simp [hcol.timezone, hspec, hc]
  }
  have hg := Store.materializeCron_grows hs.triggered h
  have ⟨due, hd⟩ : ∃ due, rt.calendar.dueCronBatch cron record.cursor now = .ok due :=
    Store.materializeCron_due h hm hc
  rw [← hf.mem_due_iff hd]
  constructor
  case mp =>
    intro ho
    rcases hg.fired_only ho with ho | ⟨record', hm'', hi', cron', due', hc', hd', ho⟩
    case inl => exact .inl ho
    case inr =>
      obtain rfl : record' = record := List.inj_on_of_nodup_map hp.nodup hm'' hm' hi'
      cases hc.symm.trans hc'
      cases hd.symm.trans hd'
      exact .inr ho
  case mpr =>
    rintro (ho | ho)
    case inl => exact hg.fired ho
    case inr => exact Store.materializeCron_fired hs.triggered h hm hc hd ⟨r', hr, ha⟩ o ho

end CronState

namespace Sample

def instants (_ : CronSpec) (o : Time) : Prop :=
  o ∈ [3600000, 7200000, 10800000]

theorem calendar_first : calendar.First instants := by
  refine Calendar.first_of_fixed (fun _ _ _ => rfl) (fun _ _ => rfl) fun cron start => ⟨?_, fun o => ?_⟩
  case refine_1 =>
    have hp : List.Pairwise (· < ·) [(3600000 : Time), 7200000, 10800000] := by decide
    exact hp.filter (start < ·)
  case refine_2 => simp only [calendar, instants, List.mem_filter, decide_eq_true_eq, and_comm]

-- Both instants that are left are inserted by one pass.
def caughtUp : List CronAction :=
  [.tick 12000000, .begin 1, .read 1 [1], .step 1 ⟨0, 0, 0⟩, .step 1 ⟨11, 21, 0⟩, .step 1 ⟨12, 22, 0⟩]

-- The clock goes back before the cron expression is changed.
def turnedBack : CronState :=
  (cronMachine cronRuntime).run .initial <| firedOnce ++ [
    .tick 1000,
    .exec (.updateSchedule 1 1
      { hourlySchedule.spec with cron := some { hourly with expression := "0 30 * * * *" } }
      hourlySchedule.encryptedSnapshot 1000)
  ]

end Sample

namespace CronState

open Sample

end CronState

end Scheduler
