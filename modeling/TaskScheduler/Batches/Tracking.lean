import TaskScheduler.Batches.Consistency

namespace Scheduler

namespace Core

variable {c c' : Core} {r : Uuid} {st : RunState} {x : BatchItemState} {run : Run}

-- No offer of the run is open.
def NoOffer (c : Core) (r : Uuid) : Prop :=
  ∀ a ∈ c.attempts, a.runId = r → a.state ≠ .offered

-- What the state `x` of an item says about its run. An offer that was taken back after the run had
-- been cancelled leaves the item queued for good, and it may then be poisoned.
def Tracks (c : Core) (x : BatchItemState) (run : Run) : Prop :=
  x.Reflects run.state ∨ run.state = .cancelled ∧ c.NoOffer run.id ∧ (x = .queued ∨ x = .poisoned)

def Tracked (c : Core) : Prop :=
  ∀ i ∈ c.batchItems, ∀ run ∈ c.runs, i.runId = some run.id → c.Tracks i.state run

-- The same while the change of the run `r` has not been passed on.
def TrackedExcept (c : Core) (r : Uuid) : Prop :=
  ∀ i ∈ c.batchItems, ∀ run ∈ c.runs, run.id ≠ r → i.runId = some run.id → c.Tracks i.state run

-- Open offers are those of running runs and of cancelled ones, at most one for each run.
structure Offers (c : Core) : Prop where
  run    : ∀ a ∈ c.attempts, a.state = .offered → ∃ run, c.runs.get? a.runId = some run ∧
    (run.state = .running ∨ run.state = .cancelled)
  unique : ∀ a ∈ c.attempts, ∀ b ∈ c.attempts, a.state = .offered → b.state = .offered →
    a.runId = b.runId → a = b

namespace Tracks

theorem of_active (h : c.Tracks x run) (hs : run.state.isActive) : x = run.state.itemState := by
  rcases h with (h | ⟨-, h⟩) | ⟨h, -⟩
  case inl.inl => exact h
  case inl.inr | inr => simp [h, RunState.isActive, RunState.isTerminal] at hs

theorem of_offered (h : c.Tracks x run) {a : Attempt} (ha : a ∈ c.attempts) (hr : a.runId = run.id)
    (hs : a.state = .offered) : x.Reflects run.state := by
  rcases h with h | ⟨-, h, -⟩
  case inl => exact h
  case inr => exact absurd hs (h a ha hr)

-- A poisonable item is one of a run that did not succeed and does not run.
theorem of_poisonable (h : c.Tracks x run) (hx : x.isPoisonable) :
    run.state = .queued ∧ x = .queued ∨ run.state = .failed ∧ x = .failed ∨
      run.state = .cancelled ∧ c.NoOffer run.id ∧ x = .queued := by
  rcases h with (h | ⟨h, -⟩) | ⟨hs, hn, h | h⟩
  case inl.inl => cases hs : run.state <;> simp_all [RunState.itemState, BatchItemState.isPoisonable]
  case inl.inr | inr.inr => simp [h, BatchItemState.isPoisonable] at hx
  case inr.inl => exact .inr <| .inr ⟨hs, hn, h⟩

theorem of_noOffer (h : c.Tracks x run) (hn : c.NoOffer run.id → c'.NoOffer run.id) :
    c'.Tracks x run :=
  h.imp id fun ⟨hs, ho, hx⟩ => ⟨hs, hn ho, hx⟩

end Tracks

namespace Tracked

theorem of_attempts (h : c.Tracked) {attempts : Table Attempt}
    (hn : ∀ r, c.NoOffer r → NoOffer { c with attempts } r) : Tracked { c with attempts } :=
  fun i hi run hr he => (h i hi run hr he).of_noOffer (hn run.id)

theorem setRun (h : c.Tracked) {attempts : Table Attempt} {allows : RunState → Bool} {f : Run → Run} {hf}
    (hn : ∀ r' ≠ r, c.NoOffer r' → NoOffer { c with attempts } r') :
    TrackedExcept (Core.setRun { c with attempts } r allows f hf) r := by
  refine fun i hi => List.forall_mem_map.mpr fun run hr hk he => ?_
  split at hk
  case isTrue hp =>
    have hi : (f run).id = run.id := hf run
    simp_all
  case isFalse hp =>
    simp only [hp] at he ⊢
    exact (h i hi run hr he).of_noOffer (hn run.id hk)

theorem cancelBatch (h : c.Tracked) (l : Linked c) {batchId : Uuid} :
    Tracked (c.cancelBatch batchId) := by
  refine List.forall_mem_map.mpr fun i hi => List.forall_mem_map.mpr fun run hr he => ?_
  have he : i.runId = some run.id := by split at he <;> split at he <;> exact he
  have hx := h i hi run hr he
  have ⟨run', hr', he'⟩ := l.item i hi run.id he
  simp only [Run.ref, Prod.mk.injEq] at he'
  obtain rfl : run' = run := Table.key_injOn hr' hr he'.left
  have hx : (c.cancelBatch batchId).Tracks i.state run' := hx
  by_cases hk : i.batchId = batchId
  case neg => simpa [hk, he'] using hx
  case pos =>
    simp only [he', hk, decide_true, Bool.true_and]
    rcases hx with (hx | ⟨hx, hs⟩) | ⟨hs, hn, hx⟩
    case inl.inl =>
      refine .inl <| .inl ?_
      cases hs : run'.state <;>
        simp [hx, hs, RunState.itemState, BatchItemState.isOpen, RunState.isActive, RunState.isTerminal]
    case inl.inr =>
      exact .inl <| .inr ⟨by simp [hx, BatchItemState.isOpen], by
        simp [hs, RunState.isActive, RunState.isTerminal]⟩
    case inr =>
      have ha : ¬run'.state.isActive := by simp [hs, RunState.isActive, RunState.isTerminal]
      rw [if_neg ha]
      rcases hx with hx | hx
      case inl => exact .inl <| .inl <| by simp [hx, hs, BatchItemState.isOpen, RunState.itemState]
      case inr => exact .inr ⟨hs, hn, .inr <| by simp [hx, BatchItemState.isOpen]⟩

theorem poison (h : c.Tracked) {poisoned : Uuid → Bool} : Tracked (c.poison poisoned) := by
  refine List.forall_mem_map.mpr fun i hi => List.forall_mem_map.mpr fun run hr he => ?_
  have he : i.runId = some run.id := by split at he <;> split at he <;> exact he
  have hx : (c.poison poisoned).Tracks i.state run := h i hi run hr he
  cases hp : poisoned run.id
  case false => simpa [he, hp] using hx
  case true =>
    simp only [he, Option.any_some, hp, Bool.true_and, Bool.and_true]
    split
    case isTrue hi =>
      rcases hx.of_poisonable hi with ⟨hs, -⟩ | ⟨hs, -⟩ | ⟨hs, hn, -⟩
      case inl => exact .inl <| .inr ⟨rfl, by simp [hs]⟩
      case inr.inl => exact .inl <| .inr ⟨rfl, by simp [hs]⟩
      case inr.inr =>
        simp only [hs, reduceCtorEq, decide_false, Bool.false_eq_true, if_false]
        exact .inr ⟨hs, hn, .inr rfl⟩
    case isFalse hi =>
      have hs : run.state ≠ .queued := fun hs => by
        have hq := hx.of_active (by rw [hs]; rfl)
        simp [hq, hs, RunState.itemState, BatchItemState.isPoisonable] at hi
      simpa [hs] using hx

end Tracked

theorem TrackedExcept.sync (h : c.TrackedExcept r) (l : Linked c) (hr : c.runs.get? r = some run)
    (hs : run.batchId.isSome → c.Tracks st.itemState run) : Tracked (c.sync r st) := by
  have hk : run.id = r := Table.key_of_get? hr
  have ht {x run'} (h : c.Tracks x run') : (c.sync r st).Tracks x run' :=
    h.of_noOffer fun hn => by simpa [NoOffer] using hn
  intro i' hi' run' hr' he
  rw [sync_runs] at hr'
  cases hl : run.link
  case none =>
    have hc : c.sync r st = c := by simp [Core.sync, hr, hl]
    rw [hc] at hi'
    refine ht <| h i' hi' run' hr' (fun hn => ?_) he
    obtain ⟨run₁, hm, hx⟩ := l.item i' hi' run'.id he
    simp only [Run.ref, Prod.mk.injEq] at hx
    obtain rfl : run₁ = run := Table.key_injOn hm (Table.mem_of_get? hr) <| hx.left.trans <| hn.trans hk.symm
    simp [Run.link, hx] at hl
  case some p =>
    obtain ⟨bid, iid⟩ := p
    obtain ⟨hb, hj⟩ := Run.link_eq_some.mp hl
    simp only [Core.sync, hr, Option.bind_some, hl] at hi'
    obtain ⟨i, hi, rfl⟩ := Table.mem_update.mp hi'
    have he : i.runId = some run'.id := by split at he <;> exact he
    split
    case isTrue hc =>
      -- The item and the run point at each other, so the item belongs to no other run.
      obtain ⟨item, hx, hy⟩ := l.run run (Table.mem_of_get? hr) bid iid hb hj
      simp only [BatchItem.ref, Prod.mk.injEq] at hy
      obtain rfl : i = item := Table.key_injOn hi hx <| by simp_all [Keyed.key]
      obtain rfl : run = run' := Table.key_injOn (Table.mem_of_get? hr) hr' <|
        Option.some.inj <| hy.right.right.symm.trans he
      exact ht <| hs (by simp [hb])
    case isFalse hc =>
      refine ht <| h i hi run' hr' (fun hn => hc ?_) he
      obtain ⟨run₁, hx, hy⟩ := l.item i hi run'.id he
      simp only [Run.ref, Prod.mk.injEq] at hy
      obtain rfl : run₁ = run := Table.key_injOn hx (Table.mem_of_get? hr) <|
        hy.left.trans <| hn.trans hk.symm
      simp_all

theorem NoOffer.of_update {p : Attempt → Bool} {f : Attempt → Attempt}
    (hc : c'.attempts.rows = c.attempts.rows.map fun a => if p a then f a else a)
    (hf : ∀ a, p a → (f a).runId = a.runId ∧ ((f a).state = .offered → a.state = .offered))
    (h : c.NoOffer r) : c'.NoOffer r := by
  intro a' ha' hr hs
  rw [← Table.mem_rows, hc] at ha'
  obtain ⟨a, ha, rfl⟩ := List.mem_map.mp ha'
  split at hs
  case isTrue hp =>
    rw [if_pos hp] at hr
    exact h a ha ((hf a hp).left ▸ hr) ((hf a hp).right hs)
  case isFalse hp =>
    rw [if_neg hp] at hr
    exact h a ha hr hs

namespace Tracked

variable {op : Op} {entries : List LogEntry} {batch : Batch}

theorem congr (h : c.Tracked) (hr : Table.Same (fun run => (run.id, run.state)) c.runs c'.runs)
    (hi : Table.Same (fun i => (i.runId, i.state)) c.batchItems c'.batchItems)
    (hn : ∀ r, c.NoOffer r → c'.NoOffer r) : c'.Tracked := by
  intro i' hi' run' hr' he
  have ⟨i, hm, hx⟩ := hi.exists_left hi'
  have ⟨run, hm', hy⟩ := hr.exists_left hr'
  simp only [Prod.mk.injEq] at hx hy
  have ht := h i hm run hm' <| by rw [hx.left, he, hy.left]
  rw [← hx.right]
  rcases ht with ht | ⟨hs, ho, ht⟩
  case inl => exact .inl (hy.right ▸ ht)
  case inr => exact .inr ⟨hy.right ▸ hs, hn _ (hy.left ▸ ho), ht⟩

theorem insert_run (h : c.Tracked) (l : Linked c) {runs : Table Run}
    (hi : c.runs.insert run = some runs) : Tracked { c with runs } := by
  intro i hm run' hr he
  obtain hr | rfl := (Table.mem_of_insert hi).mp hr
  case inl => exact h i hm run' hr he
  case inr =>
    have ⟨run, hr, hx⟩ := l.item i hm run'.id he
    exact absurd (congrArg Prod.fst hx) <| Table.get?_eq_none.mp (Table.get?_key_of_insert hi) run hr

theorem finalize (h : c.Tracked) (l : Linked c) {items : List BatchItem} {c₁ : Core}
    {state : BatchState} {now : Time} (hn : (items.map BatchItem.id).Nodup)
    (hi : ∀ i ∈ items, i ∈ c.batchItems ∧ i.batchId = batch.id ∧ i.state = .ready)
    (hm : Materializes batch items c c₁) : Tracked (c₁.closeIngestion batch.id state now) := by
  let P (c' : Core) : Prop := c'.Tracked ∧
    ∀ i ∈ c'.batchItems, ∀ r, i.runId = some r → ∃ run ∈ c'.runs, run.id = r
  have hp : P c₁ := by
    refine hm.preserves (fun c' item run runs ⟨ht, ho⟩ _ _ _ hf _ _ hr => ?_) hn hi ⟨h, fun i hi r hr => ?_⟩
    · have hm {r} : r ∈ runs ↔ r ∈ c'.runs ∨ r = run := Table.mem_of_insert hr
      have fresh {run'} (hr' : run' ∈ c'.runs) : run'.id ≠ run.id :=
        Table.get?_eq_none.mp (Table.get?_key_of_insert hr) run' hr'
      constructor
      case left =>
        refine List.forall_mem_map.mpr fun i hi run' hr' he => ?_
        split at he
        case isTrue hc =>
          rw [if_pos hc]
          obtain hr' | rfl := hm.mp hr'
          case inl => exact absurd (Option.some.inj he).symm (fresh hr')
          case inr => exact .inl <| .inl <| by simp [hf.state, RunState.itemState]
        case isFalse hc =>
          rw [if_neg hc]
          obtain hr' | rfl := hm.mp hr'
          case inl => exact ht i hi run' hr' he
          case inr =>
            obtain ⟨run, hr, he⟩ := ho i hi run'.id he
            exact absurd he (fresh hr)
      case right =>
        refine List.forall_mem_map.mpr fun i hi r hr' => ?_
        split at hr'
        case isTrue => exact ⟨run, hm.mpr <| .inr rfl, Option.some.inj hr'⟩
        case isFalse =>
          obtain ⟨run', hr', he⟩ := ho i hi r hr'
          exact ⟨run', hm.mpr <| .inl hr', he⟩
    · obtain ⟨run, hr, he⟩ := l.item i hi r hr
      exact ⟨run, hr, congrArg Prod.fst he⟩
  exact hp.left

theorem setRun_sync (h : c.Tracked) (l : Linked c) {attempts : Table Attempt} {allows : RunState → Bool}
    {f : Run → Run} {hf} (hn : ∀ r' ≠ r, c.NoOffer r' → NoOffer { c with attempts } r')
    (hb : ∀ run, (f run).ref = run.ref) (hr : c.runs.get? r = some run)
    (hs : run.batchId.isSome → Tracks { c with attempts } st.itemState
      (if allows run.state then f run else run)) :
    Tracked ((Core.setRun { c with attempts } r allows f hf).sync r st) := by
  have hk : run.id = r := Table.key_of_get? hr
  have hb' run : (f run).batchId = run.batchId := congrArg (·.2.1) (hb run)
  have hr' : (Core.setRun { c with attempts } r allows f hf).runs.get? r =
      some (if allows run.state then f run else run) := by
    simp [Core.setRun, hr, hk]
  refine (h.setRun hn).sync (l.of_attempts.setRun hb) hr' fun hx => hs ?_
  split at hx
  case isTrue => exact hb' run ▸ hx
  case isFalse => exact hx

-- Taking back an offer leaves the run queued, or cancelled without any offer.
theorem requeue (h : c.Tracked) (l : Linked c) (o : Offers c) {a : Attempt} {f : Run → Run} {hf}
    {g : Attempt → Attempt} {hg} (ha : c.attempts.get? a.id = some a) (hs : a.state = .offered)
    (hb : ∀ run, (f run).ref = run.ref ∧ (f run).state = .queued)
    (hg' : ∀ a, (g a).runId = a.runId ∧ (g a).state ≠ .offered) :
    Tracked (((c.setAttempt a.id g hg).setRun a.runId (· = .running) f hf).sync a.runId .queued) := by
  have ⟨run, hr, hx⟩ := o.run a (Table.mem_of_get? ha) hs
  have hk : run.id = a.runId := Table.key_of_get? hr
  refine h.setRun_sync l (fun r _ hn => hn.of_update rfl fun b _ => ?_) (fun run => (hb run).left) hr fun _ => ?_
  · exact ⟨(hg' b).left, fun hx => absurd hx (hg' b).right⟩
  rcases hx with hx | hx
  case inl => exact .inl <| .inl <| by simp [hx, hb run, RunState.itemState]
  case inr =>
    simp only [hx, reduceCtorEq, decide_false, Bool.false_eq_true, if_false]
    refine .inr ⟨hx, ?_, .inl rfl⟩
    refine List.forall_mem_map.mpr fun b hb' hr' => ?_
    split
    case isTrue => exact (hg' b).right
    case isFalse hn =>
      simp only [hn] at hr'
      refine fun hs' => hn ?_
      simp [o.unique b hb' a (Table.mem_of_get? ha) hs' hs (hr'.trans hk)]

theorem step (h : c.Tracked) (l : Linked c) (o : Offers c) (hs : c.Step op entries c') : c'.Tracked := by
  cases hs
  case unchanged => exact h
  case queueRun hi => exact h.insert_run l hi
  case collect batchId batch batchItems f hf _ hb hc hi =>
    have hk : batch.id = batchId := Table.key_of_get? hb
    have ⟨h₁, _⟩ := hi.of_runs fun i hm hb' => l.runId_none (hk ▸ hb) hc hm (hb'.trans hk.symm)
    intro i hm run hr he
    obtain hm | hn := h₁ i hm
    case inl => exact h i hm run hr he
    case inr => simp [hn] at he
  case finalize hn hi hm _ => exact h.finalize l hn (fun i => (hi i).mp) hm
  case cancelBatch => exact h.cancelBatch l
  case poison => exact h.poison
  case openBatch | ingest => exact h
  case accept hc =>
    subst hc
    refine h.congr (.of_update rfl fun _ _ _ => rfl) .refl fun r hn => ?_
    exact hn.of_update rfl fun _ _ => ⟨rfl, nofun⟩
  case renew => exact h.of_attempts fun r hn => hn.of_update rfl fun _ _ => ⟨rfl, id⟩
  case expire => exact h.of_attempts fun r hn => hn.of_update rfl fun _ _ => ⟨rfl, nofun⟩
  case finish hc | finishExpired hc =>
    cases hc
    case late => exact h.of_attempts fun r hn => hn.of_update rfl fun _ _ => ⟨rfl, nofun⟩
    case applied run _ _ _ _ _ hr _ =>
      refine h.setRun_sync l (fun r _ hn => hn.of_update rfl fun _ _ => ⟨rfl, nofun⟩) (fun _ => rfl)
        (Table.key_of_get? hr ▸ hr) fun _ => ?_
      exact .inl <| .inl rfl
  case offer hr hq _ _ _ hi =>
    refine h.setRun_sync l (fun r hn ho => ?_) (fun _ => rfl) hr fun _ => .inl <| .inl <| by simp [hq]
    intro b hb hx
    obtain hb | rfl := (Table.mem_of_insert hi).mp hb
    case inl => exact ho b hb hx
    case inr => exact absurd hx.symm hn
  case cancelRun hr hs =>
    exact h.setRun_sync l (fun _ _ hn => hn) (fun _ => rfl) hr fun _ => .inl <| .inl <| by simp [hs]
  case retryRun hr hs =>
    exact h.setRun_sync l (fun _ _ hn => hn) (fun _ => rfl) hr fun _ => .inl <| .inl <| by simp [hs]
  case release id ha hs =>
    obtain rfl := Table.key_of_get? ha
    exact h.requeue l o ha hs (fun _ => ⟨rfl, rfl⟩) fun _ => ⟨rfl, nofun⟩
  case reject id ha hs _ =>
    obtain rfl := Table.key_of_get? ha
    exact h.requeue l o ha hs (fun _ => ⟨rfl, rfl⟩) fun _ => ⟨rfl, nofun⟩

end Tracked

end Core

end Scheduler
