import TaskScheduler.Store.Effects
import TaskScheduler.Coordinator.System
import TaskScheduler.Lifecycle.Budget

namespace Scheduler

-- What the life of a run sees of one of its attempts.
def Attempt.slot (delivery : Uuid → Delivery) (a : Attempt) : Slot where
  id       := a.id
  number   := a.attemptNumber
  state    := a.state
  accepted := a.acceptedAt.isSome
  delivery := delivery a.id

@[simp]
theorem Attempt.key_slot {a : Attempt} {d : Uuid → Delivery} : Keyed.key (a.slot d) = a.id :=
  rfl

def Run.life (run : Run) (slots : List Slot) (log : List LogEntry) : Life where
  state    := run.state
  budget   := run.maxAttempts
  count    := run.attemptCount
  offset   := run.attemptOffset
  slots
  accepted := LogEntry.acceptedSinceRetry run.id log
  executed := LogEntry.executedSinceRetry run.id log

-- The event that an action is for the run `r`, if it has an effect on it.
inductive Action.Emits (r : Uuid) : Action → Life.Event → Prop
  | offer : Emits r (.store (.createAttempt r agentId lease a token now)) (.offer a)
  | deliver : Emits r (.deliver a d) (.deliver a d)
  | release : Emits r (.store (.releaseOffer a)) (.release a)
  | reject : Emits r (.store (.rejectOffer a token result encrypted now)) (.reject a)
  | accept : Emits r (.store (.acceptAttempt a token lease now)) (.accept a)
  | expire : Emits r (.store (.claimExpiredAttempt a grace now)) (.expire a)
  | finish : Emits r (.store (.finishAttempt a token result encrypted random now))
      (.finish a (result.outcome = .succeeded))
  | finishExpired : Emits r (.store (.finishExpiredAttempt a token result encrypted random now))
      (.finishExpired a (result.outcome = .succeeded))
  | cancelRun : Emits r (.store (.cancelRun r now)) .cancel
  | cancelBatch : Emits r (.store (.cancelBatch batchId now)) .cancel
  | retry : Emits r (.store (.retryRun r now)) .retry
  | poison : Emits r (.store (.recordHealthEvidence evidence nodes e order now)) .poison

-- What an action can do to the life of the run `r`.
inductive Evolves (act : Action) (r : Uuid) : Option Life → Option Life → Prop
  | same   : Evolves act r l l
  | create : Evolves act r none (some (.initial n))
  | event  : act.Emits r e → l.Enabled e → l' = l.exec e → Evolves act r (some l) (some l')

namespace Core

def slots (c : Core) (delivery : Uuid → Delivery) (runId : Uuid) : List Slot :=
  (c.attemptsOf runId).map (·.slot delivery)

def life (c : Core) (delivery : Uuid → Delivery) (log : List LogEntry) (runId : Uuid) : Option Life :=
  (c.runs.get? runId).map fun run => run.life (c.slots delivery runId) log

-- Attempts, sent messages and the history refer to rows that exist.
structure WellFormed (c : Core) (delivery : Uuid → Delivery) (log : List LogEntry) : Prop where
  attempts : ∀ a ∈ c.attempts, (c.runs.get? a.runId).isSome
  delivery : ∀ id, delivery id ≠ .pending → (c.attempts.get? id).isSome
  log      : ∀ e ∈ log, (c.runs.get? e.runId).isSome

variable {c c' : Core} {d : Uuid → Delivery} {log : List LogEntry} {entries : List LogEntry} {r : Uuid}
variable {a : Attempt} {run : Run} {op : Op}

theorem life_some (h : c.runs.get? r = some run) :
    c.life d log r = some (run.life (c.slots d r) log) := by
  simp [life, h]

theorem life_none (h : c.runs.get? r = none) : c.life d log r = none := by
  simp [life, h]

-- The history of other runs does not matter.
theorem acceptedSinceRetry_append (h : ∀ e ∈ entries, e.runId ≠ r) :
    LogEntry.acceptedSinceRetry r (entries ++ log) = LogEntry.acceptedSinceRetry r log := by
  induction entries
  case nil => rfl
  case cons e entries hi =>
    have ⟨he, h⟩ := List.forall_mem_cons.mp h
    have hi := hi h
    cases e <;> simp_all [LogEntry.acceptedSinceRetry, LogEntry.runId]

theorem executedSinceRetry_append (h : ∀ e ∈ entries, e.runId ≠ r) :
    LogEntry.executedSinceRetry r (entries ++ log) = LogEntry.executedSinceRetry r log := by
  induction entries
  case nil => rfl
  case cons e entries hi =>
    have ⟨he, h⟩ := List.forall_mem_cons.mp h
    have hi := hi h
    cases e <;> simp_all [LogEntry.executedSinceRetry, LogEntry.runId]

theorem life_congr (hr : c'.runs.get? r = c.runs.get? r) (hs : c'.slots d r = c.slots d r)
    (hl : ∀ e ∈ entries, e.runId ≠ r) : c'.life d (entries ++ log) r = c.life d log r := by
  simp only [life, hr, hs]
  refine Option.map_congr fun run h => ?_
  obtain rfl : run.id = r := Table.key_of_get? h
  simp [Run.life, acceptedSinceRetry_append hl, executedSinceRetry_append hl]

theorem life_congr_log (hr : c'.runs.get? r = c.runs.get? r) (hs : c'.slots d r = c.slots d r) :
    c'.life d log r = c.life d log r := by
  simp only [life, hr, hs]

theorem setRun_none {id : Uuid} {f : Run → Run} {hf} : c.setRun id (fun _ => false) f hf = c := by
  simp [setRun, Table.update_eq_self]

section Attempts

variable {id : Uuid} {f : Attempt → Attempt} {hf : ∀ a, Keyed.key (f a) = Keyed.key a} {g : Slot → Slot}

theorem mem_slots (h : a ∈ c.attempts) : a.slot d ∈ c.slots d a.runId :=
  List.mem_map_of_mem (Table.mem_select.mpr ⟨h, by simp⟩)

theorem slots_setAttempt (hr : ∀ a, (f a).runId = a.runId) (hg : ∀ a, (f a).slot d = g (a.slot d)) :
    (c.setAttempt id f hf).slots d r = Keyed.modify (c.slots d r) id g := by
  simp only [slots, attemptsOf, setAttempt]
  rw [Table.select_update fun a => by simp [hr]]
  simp only [Keyed.modify, List.map_map]
  refine List.map_congr_left fun a _ => ?_
  by_cases h : a.id = id <;> simp [h, hg]

-- An attempt has no slot in the life of another run.
theorem slots_modify_other (ha : c.attempts.get? id = some a) (h : a.runId ≠ r) :
    Keyed.modify (c.slots d r) id g = c.slots d r := by
  refine Keyed.modify_eq_self fun s hs hi => ?_
  have ⟨b, hb, hs⟩ := List.mem_map.mp hs
  have ⟨hb, hr⟩ := Table.mem_select.mp hb
  have he : b = a := Table.key_injOn hb (Table.mem_of_get? ha) <| by
    rw [Table.key_of_get? ha, ← hi, ← hs]
    rfl
  exact h <| he ▸ of_decide_eq_true hr

end Attempts

-- The rows of new runs: nothing refers to them yet.
theorem WellFormed.slots_eq_nil (w : WellFormed c d log) (h : c.runs.get? r = none) :
    c.slots d r = [] := by
  refine List.map_eq_nil_iff.mpr <| List.filter_eq_nil_iff.mpr fun a ha hr => ?_
  have hn := w.attempts a ha
  rw [of_decide_eq_true hr, h] at hn
  contradiction

theorem WellFormed.log_ne (w : WellFormed c d log) (h : c.runs.get? r = none) :
    ∀ e ∈ log, e.runId ≠ r := by
  intro e he hr
  have hn := w.log e he
  rw [hr, h] at hn
  contradiction

end Core

-- The run `r` is the same in both tables, or only the second has it, as a new one.
def Run.Appears (r : Uuid) (runs runs' : Table Run) : Prop :=
  runs'.get? r = runs.get? r ∨ runs.get? r = none ∧ ∃ run, run.Fresh ∧ runs'.get? r = some run

namespace Evolves

open Scheduler.Core

variable {c c' : Core} {d : Uuid → Delivery} {log entries : List LogEntry} {r : Uuid} {a : Attempt}
variable {act : Action}

theorem of_eq {l l' : Option Life} (h : l' = l) : Evolves act r l l' :=
  h ▸ .same

theorem of_some {l : Life} {l' : Option Life} (h : Evolves act r (some l) l') :
    l' = some l ∨ ∃ e, act.Emits r e ∧ l.Enabled e ∧ l' = some (l.exec e) := by
  cases h
  case same => exact .inl rfl
  case event hm he hx => exact .inr ⟨_, hm, he, congrArg some hx⟩

theorem of_fresh (w : WellFormed c d log) (ha : c'.attempts = c.attempts)
    (hr : Run.Appears r c.runs c'.runs) : Evolves act r (c.life d log r) (c'.life d log r) := by
  have hs : c'.slots d r = c.slots d r := by simp [slots, attemptsOf, ha]
  obtain hr | ⟨hn, run, hf, hr⟩ := hr
  case inl =>
    exact .of_eq <| life_congr_log hr hs
  case inr =>
    obtain rfl : run.id = r := Table.key_of_get? hr
    have he := w.log_ne hn
    have ha : LogEntry.acceptedSinceRetry run.id log = [] := by
      rw [← List.append_nil log, acceptedSinceRetry_append he]
      rfl
    have hx : LogEntry.executedSinceRetry run.id log = [] := by
      rw [← List.append_nil log, executedSinceRetry_append he]
      rfl
    rw [life_none hn, life_some hr, hs, w.slots_eq_nil hn]
    have hl : run.life [] log = .initial run.maxAttempts := by
      simp [Run.life, Life.initial, hf.state, hf.count, hf.offset, ha, hx]
    exact hl ▸ .create

-- A change of the run alone.
theorem of_run (e : Life.Event) (p : Run → Bool) (f : Run → Run) (hf : ∀ run, (f run).id = run.id)
    (ha : c'.attempts = c.attempts) (hr : c'.runs = c.runs.update p f hf)
    (h : ∀ run, c.runs.get? r = some run → p run → act.Emits r e ∧
      (run.life (c.slots d r) log).Enabled e ∧
      (f run).life (c.slots d r) (entries ++ log) = (run.life (c.slots d r) log).exec e)
    (hl : ∀ run, c.runs.get? r = some run → p run = false → ∀ x ∈ entries, x.runId ≠ r) :
    Evolves act r (c.life d log r) (c'.life d (entries ++ log) r) := by
  have hs : c'.slots d r = c.slots d r := by simp [slots, attemptsOf, ha]
  cases hg : c.runs.get? r
  case none =>
    rw [life_none hg, life_none (by simp [hr, hg])]
    exact .same
  case some run =>
    by_cases hp : p run
    case neg =>
      exact .of_eq <| life_congr (by simp [hr, hg, hp]) hs (hl run hg <| eq_false_of_ne_true hp)
    case pos =>
      obtain ⟨he, hn, hx⟩ := h run hg hp
      rw [life_some hg, life_some (by simp [hr, hg, hp] : c'.runs.get? r = some (f run)), hs]
      exact .event he hn hx

-- A change of one attempt and of its run.
theorem of_attempt (e : Life.Event) (g : Slot → Slot) {id : Uuid} {f : Attempt → Attempt}
    {allows : RunState → Bool} {k : Run → Run} {hf hk} (w : WellFormed c d log)
    (ha : c.attempts.get? id = some a)
    (hc : c' = (c.setAttempt id f hf).setRun a.runId allows k hk ∨
      ∃ st, c' = ((c.setAttempt id f hf).setRun a.runId allows k hk).sync a.runId st)
    (hi : ∀ b, (f b).runId = b.runId) (hg : ∀ b, (f b).slot d = g (b.slot d))
    (hl : ∀ x ∈ entries, x.runId = a.runId)
    (h : ∀ run, c.runs.get? a.runId = some run → act.Emits a.runId e ∧
      (run.life (c.slots d a.runId) log).Enabled e ∧
      (if allows run.state then k run else run).life (Keyed.modify (c.slots d a.runId) id g)
        (entries ++ log) = (run.life (c.slots d a.runId) log).exec e) :
    Evolves act r (c.life d log r) (c'.life d (entries ++ log) r) := by
  have hs : c'.slots d r = Keyed.modify (c.slots d r) id g := by
    have hs : c'.slots d r = (c.setAttempt id f hf).slots d r := by
      obtain rfl | ⟨_, rfl⟩ := hc <;> simp [slots, attemptsOf, setRun]
    rw [hs, slots_setAttempt hi hg]
  have hr : c'.runs.get? r =
      (c.runs.get? r).map fun run => if run.id = a.runId && allows run.state then k run else run := by
    obtain rfl | ⟨_, rfl⟩ := hc <;> simp [setRun, setAttempt]
  by_cases hn : a.runId = r
  case neg =>
    refine .of_eq <| life_congr ?_ ?_ ?_
    · cases hg : c.runs.get? r
      case none => simp [hr, hg]
      case some run =>
        have hi : run.id ≠ a.runId := fun hi => hn <| hi.symm.trans (Table.key_of_get? hg)
        simp [hr, hg, hi]
    · rw [hs, slots_modify_other ha hn]
    · exact fun x hx hr => hn <| (hl x hx).symm.trans hr
  case pos =>
    subst hn
    obtain ⟨run, hg⟩ := Option.isSome_iff_exists.mp <| w.attempts a (Table.mem_of_get? ha)
    have hi : run.id = a.runId := Table.key_of_get? hg
    have hr : c'.runs.get? a.runId = some (if allows run.state then k run else run) := by
      simp [hr, hg, hi]
    obtain ⟨he, hn, hx⟩ := h run hg
    rw [life_some hg, life_some hr, hs]
    exact .event he hn hx

theorem of_attempt_only (e : Life.Event) (g : Slot → Slot) {id : Uuid} {f : Attempt → Attempt} {hf}
    (w : WellFormed c d log) (ha : c.attempts.get? id = some a)
    (hi : ∀ b, (f b).runId = b.runId) (hg : ∀ b, (f b).slot d = g (b.slot d))
    (hl : ∀ x ∈ entries, x.runId = a.runId)
    (h : ∀ run, c.runs.get? a.runId = some run → act.Emits a.runId e ∧
      (run.life (c.slots d a.runId) log).Enabled e ∧
      run.life (Keyed.modify (c.slots d a.runId) id g) (entries ++ log) =
        (run.life (c.slots d a.runId) log).exec e) :
    Evolves act r (c.life d log r) ((c.setAttempt id f hf).life d (entries ++ log) r) := by
  have hc : c.setAttempt id f hf =
      (c.setAttempt id f hf).setRun a.runId (fun _ => false) (fun run => run) :=
    setRun_none.symm
  exact of_attempt e g w ha (.inl hc) hi hg hl h

theorem runs_isSome {log'} (h : Evolves act r (c.life d log r) (c'.life d log' r))
    (hr : (c.runs.get? r).isSome) : (c'.runs.get? r).isSome := by
  have hl : (c.life d log r).isSome := by simpa [life] using hr
  have hl : (c'.life d log' r).isSome := by
    generalize c.life d log r = l at h hl
    generalize c'.life d log' r = l' at h
    cases h
    case same => exact hl
    case create => rfl
    case event => rfl
  simpa [life] using hl

theorem lawful {l l' : Option Life} (h : Evolves act r l l') (hl : ∀ m, l = some m → m.Lawful) :
    ∀ m, l' = some m → m.Lawful := by
  intro m hm
  cases h
  case same => exact hl m hm
  case create =>
    cases hm
    exact .initial
  case event he hx =>
    cases hm
    exact hx ▸ (hl _ rfl).exec he

end Evolves

theorem Run.Appears.of_insert {r : Uuid} {run : Run} {runs runs' : Table Run} (hf : run.Fresh)
    (h : runs.insert run = some runs') : Run.Appears r runs runs' := by
  have hr := Table.get?_of_insert h (k := r)
  split at hr
  case isTrue hk => exact .inr ⟨hk ▸ Table.get?_key_of_insert h, run, hf, hr⟩
  case isFalse => exact .inl hr

theorem Run.Appears.trans {r : Uuid} {runs₁ runs₂ runs₃ : Table Run} (h₁ : Run.Appears r runs₁ runs₂)
    (h₂ : Run.Appears r runs₂ runs₃) : Run.Appears r runs₁ runs₃ := by
  obtain h₂ | ⟨hn, h₂⟩ := h₂
  case inl => simpa [Appears, h₂] using h₁
  case inr =>
    obtain h₁ | ⟨_, _, _, h₁⟩ := h₁
    case inl => exact .inr ⟨h₁ ▸ hn, h₂⟩
    case inr => simp [h₁] at hn

namespace Core

variable {c c' : Core} {d : Uuid → Delivery} {log entries : List LogEntry} {r : Uuid} {a : Attempt}
variable {run : Run} {op : Op}

theorem Materializes.attempts {batch items} (h : Materializes batch items c c') :
    c'.attempts = c.attempts := by
  induction h
  case nil => rfl
  case cons hi => exact hi

theorem Materializes.runs {batch items} (h : Materializes batch items c c') :
    Run.Appears r c.runs c'.runs := by
  induction h
  case nil => exact .inl rfl
  case cons hf _ _ hr _ hi => exact .trans (.of_insert hf hr) hi

theorem has_slot {id : Uuid} {l : Life} {p : Slot → Prop} (ha : c.attempts.get? id = some a)
    (hp : p (a.slot d)) (hl : l.slots = c.slots d a.runId := by rfl) : l.Has id p :=
  ⟨a.slot d, hl ▸ mem_slots (Table.mem_of_get? ha), Table.key_of_get? ha, hp⟩

theorem enabled_cancel {slots : List Slot} (h : run.state.isActive) :
    (run.life slots log).Enabled .cancel := by
  cases hs : run.state <;> simp_all [Life.Enabled, Run.life, RunState.isActive, RunState.isTerminal]

theorem stateAfter_eq (run : Run) (outcome : ExecutionOutcome) (log : List LogEntry)
    {slots : List Slot} :
    run.stateAfter outcome = (run.life slots log).next (outcome = .succeeded) := by
  by_cases h : outcome = .succeeded
  case pos => simp [Run.stateAfter, Life.next, h]
  case neg =>
    simp only [Run.stateAfter, Life.next, h, decide_false, if_false]
    rfl

theorem isLeased_iff {st : AttemptState} : st.isLeased ↔ st = .offered ∨ st = .accepted := by
  cases st <;> simp [AttemptState.isLeased]

theorem acceptedCount_eq : c.acceptedCount r = (c.slots d r).countP (·.accepted) := by
  simp [acceptedCount, slots, List.countP_map, Function.comp_def, Attempt.slot]

theorem maxAttemptNumber_eq : c.maxAttemptNumber r = ((c.slots d r).map (·.number)).foldl max 0 := by
  simp [maxAttemptNumber, slots, Function.comp_def, Attempt.slot]

section Life

variable (w : WellFormed c d log)
include w

theorem life_offer {agentId lease token now} (hr : c.runs.get? a.runId = some run)
    (hq : run.state = .queued) (hs : a.state = .offered) (ha : a.acceptedAt = none)
    (hn : a.attemptNumber = c.maxAttemptNumber a.runId + 1)
    (hi : c.attempts.insert a = some c'.attempts)
    (hc : c'.runs = (c.setRun a.runId (· = .queued) ({ · with state := .running })).runs) :
    Evolves (.store (.createAttempt a.runId agentId lease a.id token now)) r (c.life d log r)
      (c'.life d log r) := by
  have hf : c.attempts.get? a.id = none := Table.get?_key_of_insert hi
  have hd : d a.id = .pending := by
    by_contra hd
    simpa [hf] using w.delivery a.id hd
  have hs' : c'.slots d r = c.slots d r ++ if a.runId = r then [a.slot d] else [] := by
    simp only [slots, attemptsOf]
    rw [Table.select_of_insert hi, List.map_append]
    split <;> simp_all
  have hr' : c'.runs.get? r = (c.runs.get? r).map fun run =>
      if run.id = a.runId && run.state = .queued then { run with state := .running } else run := by
    simp [hc, setRun]
  by_cases h : a.runId = r
  case neg =>
    refine .of_eq <| life_congr_log ?_ (by simp [hs', h])
    cases hg : c.runs.get? r
    case none => simp [hr', hg]
    case some run =>
      have hi : run.id ≠ a.runId := fun hi => h <| hi.symm.trans (Table.key_of_get? hg)
      simp [hr', hg, hi]
  case pos =>
    subst h
    have hi : run.id = a.runId := Table.key_of_get? hr
    rw [life_some hr, life_some (by simp [hr', hr, hi, hq] : c'.runs.get? _ = some { run with state := .running })]
    refine .event .offer ⟨hq, ?_⟩ ?_
    · intro s hs he
      obtain ⟨b, hb, hs⟩ := List.mem_map.mp hs
      have hb := (Table.mem_select.mp hb).left
      exact Table.get?_eq_none.mp hf b hb <| by rw [← he, ← hs]; rfl
    · simp [Life.exec, Run.life, hs', Attempt.slot, Life.newSlot, Life.nextNumber, hs, ha, hn, hd, maxAttemptNumber_eq (d := d)]

theorem life_accept {id : Uuid} {token lease now} {c₁ : Core} (ha : c.attempts.get? id = some a)
    (hs : a.state.isLeased) (hc : c₁ = c.setAttempt id (Attempt.accept · lease now)) :
    Evolves (.store (.acceptAttempt id token lease now)) r (c.life d log r)
      ((c₁.setRun a.runId (fun _ => true) fun r =>
        { r with attemptCount := c₁.acceptedCount a.runId - r.attemptOffset }).life d
        ([.accepted id a.runId] ++ log) r) := by
  have hg : c₁.slots d a.runId =
      Keyed.modify (c.slots d a.runId) id ({ · with state := .accepted, accepted := true }) :=
    hc ▸ slots_setAttempt (fun _ => rfl) fun b => by simp [Attempt.slot, Attempt.accept]
  have hn : c₁.acceptedCount a.runId = _ := acceptedCount_eq (d := d)
  rw [hg] at hn
  subst hc
  refine .of_attempt (.accept id) ({ · with state := .accepted, accepted := true }) w ha (.inl rfl)
    (fun _ => rfl) (fun b => by simp [Attempt.slot, Attempt.accept]) (by simp [LogEntry.runId])
    fun run hr => ⟨.accept, has_slot ha ?_, ?_⟩
  · exact isLeased_iff.mp hs
  · have hr : run.id = a.runId := Table.key_of_get? hr
    simp [Life.exec, Life.modify, Life.acceptedCount, Run.life, hn, hr, LogEntry.acceptedSinceRetry,
      LogEntry.executedSinceRetry]

-- A result, whether it comes from the agent or stands for an expired lease. The two differ in what
-- they leave in the history.
theorem life_concludes {p : AttemptState → Prop} {outcome : ExecutionOutcome} {act : Action}
    (e : Life.Event) (h : Concludes c a outcome p c') (he : act.Emits a.runId e)
    (hl : ∀ x ∈ entries, x.runId = a.runId)
    (hn : ∀ run : Run, (run.life (c.slots d a.runId) log).Enabled e)
    (hx : ∀ run : Run, run.id = a.runId → (run.life (c.slots d a.runId) log).exec e =
      (run.life (c.slots d a.runId) (entries ++ log)).conclude a.id (outcome = .succeeded)) :
    Evolves act r (c.life d log r) (c'.life d (entries ++ log) r) := by
  cases h
  case late run _ _ ha _ hr hs =>
    refine .of_attempt_only e ({ · with state := .lateResult }) w ha (fun _ => rfl) (fun _ => rfl) hl
      fun run' hr' => ⟨he, hn run', ?_⟩
    obtain rfl : run' = run := Option.some.inj <| hr'.symm.trans hr
    rw [hx run' (Table.key_of_get? hr)]
    simp [Life.conclude, Life.setState, Life.modify, Run.life, hs]
  case applied run _ _ _ ha _ hr hs =>
    have hi : run.id = a.runId := Table.key_of_get? hr
    rw [hi]
    refine .of_attempt e ({ · with state := .finished }) w ha (.inr ⟨_, rfl⟩)
      (fun _ => rfl) (fun _ => rfl) hl fun run' hr' => ⟨he, hn run', ?_⟩
    obtain rfl : run' = run := Option.some.inj <| hr'.symm.trans hr
    rw [hx run' hi, stateAfter_eq run' outcome (entries ++ log)]
    simp [Life.conclude, Life.setState, Life.modify, Run.life, hs]
    rfl

theorem Step.life (h : c.Step op entries c') (ho : op.Allowed d) :
    Evolves (.store op) r (c.life d log r) (c'.life d (entries ++ log) r) := by
  cases h
  case unchanged => exact .same
  case openBatch => exact .same
  case ingest => exact .same
  case collect => exact .same
  case queueRun hf _ _ hi => exact .of_fresh w rfl (.of_insert hf hi)
  case finalize hm _ => exact .of_fresh w hm.attempts hm.runs
  case cancelBatch batchId batch now _ _ =>
    refine .of_run .cancel (fun run => run.batchId = some batchId && run.state.isActive)
      ({ · with state := .cancelled }) (fun _ => rfl) rfl rfl (fun run _ hp => ?_) (by simp)
    exact ⟨.cancelBatch, enabled_cancel (by simp_all), rfl⟩
  case offer hr hq hs ha hn hi => 
    exact life_offer w hr hq hs ha hn (by simpa [setRun] using hi) (by simp [setRun])
  case release a id ha hs =>
    obtain rfl : a.id = id := Table.key_of_get? ha
    refine .of_attempt (.release a.id) ({ · with state := .offerFailed }) w ha (.inr ⟨_, rfl⟩)
      (fun _ => rfl) (fun _ => rfl) (by simp) fun run hr => ⟨.release, has_slot ha ⟨hs, ho _ rfl⟩, ?_⟩
    by_cases h : run.state = .running <;>
      simp [Life.exec, Life.requeue, Life.setState, Life.modify, Run.life, h]
  case reject a token result encrypted now id ha hs ht =>
    refine .of_attempt (.reject id) ({ · with state := .finished }) w ha (.inr ⟨_, rfl⟩)
      (fun _ => rfl) (fun _ => rfl) (by simp) fun run hr => ⟨.reject, has_slot ha hs, ?_⟩
    by_cases h : run.state = .running <;>
      simp [Life.exec, Life.requeue, Life.setState, Life.modify, Run.life, h]
  case accept ha hs ht hc => exact life_accept w ha hs hc
  case renew p hp lease =>
    refine .of_eq <| life_congr rfl ?_ (by simp)
    simp only [slots, attemptsOf]
    rw [Table.select_update (by intro; rfl), List.map_map]
    refine List.map_congr_left fun a _ => ?_
    simp only [Function.comp_apply]
    split <;> rfl
  case expire a grace now id ha hs =>
    exact .of_attempt_only (.expire id) ({ · with state := .expiring }) w ha (fun _ => rfl)
      (fun _ => rfl) (by simp) fun run hr => ⟨.expire, has_slot ha (isLeased_iff.mp hs), rfl⟩
  case finish a token result encrypted random now h =>
    refine life_concludes w (.finish a.id (result.outcome = .succeeded)) h .finish
      (by simp [LogEntry.runId]) (fun run => has_slot h.attempt ⟨ho _ rfl, h.state⟩) fun run hr => ?_
    by_cases hs : run.state = .cancelled <;>
      simp [Life.exec, Life.conclude, Life.setState, Life.modify, Life.next, Run.life, hs, hr,
        LogEntry.acceptedSinceRetry, LogEntry.executedSinceRetry]
  case finishExpired a token result encrypted random now h =>
    exact life_concludes w (.finishExpired a.id (result.outcome = .succeeded)) h .finishExpired
      (by simp) (fun run => has_slot h.attempt h.state) fun run hr => rfl
  case cancelRun runId run now hr hs =>
    refine .of_run .cancel (fun run => run.id = runId && run.state.isActive)
      ({ · with state := .cancelled }) (fun _ => rfl) (by simp [setRun]) (by simp [setRun])
      (fun run hg hp => ?_) (by simp)
    have hi : runId = r := by
      rw [← Table.key_of_get? hg]
      simp_all [Keyed.key]
    exact hi ▸ ⟨.cancelRun, enabled_cancel (by simp_all), rfl⟩
  case retryRun runId run now hr hs =>
    refine .of_run .retry (fun run => run.id = runId && run.state = .failed) ({ · with
        state         := .queued
        attemptCount  := 0
        attemptOffset := c.acceptedCount runId
        notBefore     := now
      }) (fun _ => rfl) (by simp [setRun]) (by simp [setRun]) (fun run hg hp => ?_) ?_
    · have hi : runId = r := by
        rw [← Table.key_of_get? hg]
        simp_all [Keyed.key]
      subst hi
      have hi : run.id = runId := Table.key_of_get? hg
      refine ⟨.retry, by simp_all [Life.Enabled, Run.life], ?_⟩
      simp [Life.exec, Run.life, Life.acceptedCount, acceptedCount_eq (d := d), hi,
        LogEntry.acceptedSinceRetry, LogEntry.executedSinceRetry]
    · intro run' hg hp x hx hi
      rw [List.mem_singleton] at hx
      have hi : runId = r := by simpa [hx, LogEntry.runId] using hi
      obtain rfl : run' = run := Option.some.inj <| hg.symm.trans (hi ▸ hr)
      have hk : run'.id = runId := Table.key_of_get? hr
      simp [hk, hs] at hp
  case poison poisoned =>
    refine .of_run .poison (fun run => run.state = .queued && poisoned run.id)
      ({ · with state := .failed }) (fun _ => rfl) rfl rfl (fun run hg hp => ?_) (by simp)
    exact ⟨.poison, by simp_all [Life.Enabled, Run.life], rfl⟩

end Life

theorem WellFormed.of_mem_update (w : WellFormed c d log) {p : Attempt → Bool} {f : Attempt → Attempt}
    {b : Attempt} (hb : b ∈ c.attempts.rows.map fun a => if p a then f a else a)
    (hr : ∀ a, (f a).runId = a.runId) : (c.runs.get? b.runId).isSome := by
  obtain ⟨a, ha, rfl⟩ := List.mem_map.mp hb
  split
  case isTrue => exact hr a ▸ w.attempts a ha
  case isFalse => exact w.attempts a ha

-- Attempts belong to the runs they were created for.
theorem Step.attempts_isSome (w : WellFormed c d log) (h : c.Step op entries c') {b : Attempt}
    (hb : b ∈ c'.attempts) : (c.runs.get? b.runId).isSome := by
  cases h
  case offer hr _ _ _ _ hi =>
    rw [sync_attempts] at hb
    obtain hb | rfl := Table.mem_of_insert hi |>.mp hb
    case inl => exact w.attempts b hb
    case inr => simp [hr]
  case finalize hm _ => exact w.attempts b <| hm.attempts ▸ hb
  case finish h | finishExpired h =>
    cases h
    case late => exact w.of_mem_update hb fun _ => rfl
    case applied =>
      rw [sync_attempts] at hb
      exact w.of_mem_update hb fun _ => rfl
  case accept hc =>
    subst hc
    exact w.of_mem_update hb fun _ => rfl
  case release | reject =>
    rw [sync_attempts] at hb
    exact w.of_mem_update hb fun _ => rfl
  case cancelRun | retryRun =>
    rw [sync_attempts] at hb
    exact w.attempts b hb
  case renew | expire => exact w.of_mem_update hb fun _ => rfl
  all_goals exact w.attempts b hb

theorem Step.attempts_get? {id : Uuid} (h : c.Step op entries c')
    (hi : (c.attempts.get? id).isSome) : (c'.attempts.get? id).isSome := by
  cases h
  case offer hr _ _ _ _ ha =>
    rw [sync_attempts]
    have hg := Table.get?_of_insert ha (k := id)
    simp only [setRun, hg]
    split
    case isTrue => rfl
    case isFalse => exact hi
  case finalize hm _ => exact hm.attempts ▸ hi
  case finish h | finishExpired h => cases h <;> simpa [setAttempt, setRun] using hi
  case accept hc => simpa [hc, setAttempt, setRun] using hi
  case unchanged | queueRun | openBatch | ingest | collect | cancelBatch | poison => exact hi
  all_goals simpa [setAttempt, setRun] using hi

theorem Step.entries_isSome (w : WellFormed c d log) (h : c.Step op entries c') :
    ∀ e ∈ entries, (c.runs.get? e.runId).isSome := by
  cases h
  case accept ha _ _ _ => simpa [LogEntry.runId] using w.attempts _ (Table.mem_of_get? ha)
  case finish h => simpa [LogEntry.runId] using w.attempts _ (Table.mem_of_get? h.attempt)
  case retryRun hr _ => simp [LogEntry.runId, hr]
  all_goals simp

end Core

namespace System

variable {σ : System} {act : Action} {r : Uuid} {l : Life}

def life (σ : System) (runId : Uuid) : Option Life :=
  σ.store.core.life σ.delivery σ.log runId

def WellFormed (σ : System) : Prop :=
  σ.store.core.WellFormed σ.delivery σ.log

theorem life_deliver {id : Uuid} {x : Delivery} (h : σ.Enabled (.deliver id x)) :
    Evolves (.deliver id x) r (σ.life r) ((σ.exec (.deliver id x)).life r) := by
  obtain ⟨ha, hd, -⟩ := h
  have ⟨a, ha⟩ := Option.isSome_iff_exists.mp ha
  have hs : σ.store.core.slots (Function.update σ.delivery id x) r =
      Keyed.modify (σ.store.core.slots σ.delivery r) id ({ · with delivery := x }) := by
    simp only [Core.slots, Keyed.modify, List.map_map]
    refine List.map_congr_left fun b _ => ?_
    by_cases hb : b.id = id <;> simp [Attempt.slot, Keyed.key, hb]
  cases hr : σ.store.core.runs.get? r
  case none => exact .of_eq <| (Core.life_none hr).trans (Core.life_none hr).symm
  case some run =>
    rw [life, life, Core.life_some hr, exec, Core.life_some hr, hs]
    by_cases hn : a.runId = r
    case neg => exact .of_eq <| by rw [Core.slots_modify_other ha hn]
    case pos =>
      subst hn
      have hp : (a.slot σ.delivery).delivery = .pending :=
        (congrArg σ.delivery <| Table.key_of_get? ha).trans hd
      exact .event .deliver (Core.has_slot ha hp) rfl

-- One action of the coordinator is at most one event in the life of each run.
theorem life_exec (w : σ.WellFormed) (h : σ.Enabled act) :
    Evolves act r (σ.life r) ((σ.exec act).life r) := by
  cases act
  case store op => exact (σ.store.exec_step op).life w h
  case deliver id x => exact life_deliver h

theorem WellFormed.initial : System.initial.WellFormed where
  attempts := fun _ ha => absurd ha Table.not_mem_empty
  delivery := fun _ hd => absurd rfl hd
  log      := fun _ he => absurd he List.not_mem_nil

theorem WellFormed.exec (w : σ.WellFormed) (h : σ.Enabled act) : (σ.exec act).WellFormed := by
  cases act
  case store op =>
    have hs := σ.store.exec_step op
    have hr {r} (hr : (σ.store.core.runs.get? r).isSome) :
        ((σ.store.exec op).core.runs.get? r).isSome :=
      (hs.life w h).runs_isSome hr
    constructor
    case attempts => exact fun a ha => hr <| hs.attempts_isSome w ha
    case delivery => exact fun id hd => hs.attempts_get? <| w.delivery id hd
    case log =>
      intro e he
      rcases List.mem_append.mp he with he | he
      case inl => exact hr <| hs.entries_isSome w e he
      case inr => exact hr <| w.log e he
  case deliver id x =>
    constructor
    case attempts => exact w.attempts
    case log => exact w.log
    case delivery =>
      intro i hi
      by_cases hk : i = id
      case pos => exact hk ▸ h.left
      case neg => exact w.delivery i <| by simpa [System.exec, hk] using hi

theorem Reachable.wellFormed (h : σ.Reachable) : σ.WellFormed :=
  Machine.Reachable.invariant (fun _ _ w ha => WellFormed.exec w ha) h .initial

theorem life_initial : System.initial.life r = none :=
  Core.life_none Table.get?_empty

-- A new run is lawful and every event keeps it so.
theorem Reachable.lawful (h : σ.Reachable) (hl : σ.life r = some l) : l.Lawful := by
  let I (σ : System) : Prop := σ.WellFormed ∧ ∀ l, σ.life r = some l → l.Lawful
  have step σ act (hi : I σ) (ha : coordinator.Enabled σ act) : I (coordinator.exec σ act) :=
    ⟨hi.left.exec ha, (life_exec hi.left ha).lawful hi.right⟩
  have init : I .initial := ⟨.initial, fun l hl => by simp [life_initial] at hl⟩
  exact (Machine.Reachable.invariant step h init).right l hl

end System

end Scheduler
