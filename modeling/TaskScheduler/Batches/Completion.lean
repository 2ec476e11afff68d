import TaskScheduler.Batches.Tracking

namespace Scheduler

-- The state of the run, if it is a child of the batch.
def Run.stateIn (batchId : Uuid) (run : Run) : Option RunState :=
  if run.batchId = some batchId then some run.state else none

-- The operation records a result of the attempt.
def Op.concludes (a : Attempt) : Op → Prop
  | .finishAttempt id ..        => a.id = id ∧ Store.Concludable false a.state
  | .finishExpiredAttempt id .. => a.id = id ∧ Store.Concludable true a.state
  | _                           => False

namespace Core

def childStates (c : Core) (batchId : Uuid) : List RunState :=
  c.runs.rows.filterMap (Run.stateIn batchId)

-- What the state of a batch says about its runs. A running batch may be left without an active run if
-- one of its runs was cancelled.
structure Follows (c : Core) (b : Batch) : Prop where
  completed : b.state.isCompleted → ∀ st ∈ c.childStates b.id, st.isTerminal
  running   : b.state = .running → ∃ st ∈ c.childStates b.id, st.isActive ∨ st = .cancelled
  cancelled : b.finalizedAt.isSome → b.state = .cancelled → .cancelled ∈ c.childStates b.id
  done      : b.state = .completedWithErrors → (∀ st ∈ c.childStates b.id, st = .succeeded) →
    b.quarantined ≠ 0

def Followed (c : Core) : Prop :=
  ∀ b ∈ c.batches, c.Follows b

variable {c c' : Core} {r batchId : Uuid} {st : RunState} {run : Run} {b : Batch}

theorem mem_childStates : st ∈ c.childStates batchId ↔
    ∃ run ∈ c.runs, run.batchId = some batchId ∧ run.state = st := by
  simp [childStates, Run.stateIn, Table.mem_rows]

theorem all_childStates : (c.childRuns batchId).all (·.state.isTerminal) ↔
    ∀ st ∈ c.childStates batchId, st.isTerminal := by
  simp only [List.all_eq_true, childRuns, Table.mem_select, mem_childStates, decide_eq_true_eq]
  exact ⟨fun h st ⟨run, hr, hb, hs⟩ => hs ▸ h run ⟨hr, hb⟩, fun h run ⟨hr, hb⟩ => h _ ⟨run, hr, hb, rfl⟩⟩

theorem childStates_of_extends (h : Table.Extends (Run.stateIn batchId) (· = none) c.runs c'.runs) :
    c'.childStates batchId = c.childStates batchId :=
  h.filterMap_eq (d := id) fun _ h => h

theorem childStates_of_same (h : Table.Same (Run.stateIn batchId) c.runs c'.runs) :
    c'.childStates batchId = c.childStates batchId :=
  childStates_of_extends <| .of_same h

theorem Materializes.extends_runs {β : Type} {g : Run → β} {P : β → Prop} {batch : Batch}
    {items : List BatchItem} (h : Materializes batch items c c')
    (hp : ∀ run : Run, run.Fresh → run.batchId = some batch.id → P (g run)) :
    Table.Extends g P c.runs c'.runs := by
  induction h
  case nil => exact .of_same .refl
  case cons hf hb _ hi _ ih => exact .trans (.of_insert hi <| hp _ hf hb) ih

theorem sync_batches (hr : c.runs.get? r = some run)
    (hi : ∀ b, run.batchId = some b → ∃ i, run.batchItemId = some i) :
    (c.sync r st).batches.rows = c.batches.rows.map fun b =>
      if decide (run.batchId = some b.id) then b.withState (c.settled b st) else b := by
  simp only [sync, hr, Option.bind_some]
  cases hb : run.batchId
  case none => simp [Run.link, hb]
  case some bid =>
    obtain ⟨iid, hi⟩ := hi bid hb
    simp only [Run.link_eq_some.mpr ⟨hb, hi⟩, Option.some.injEq]
    refine List.map_congr_left fun b _ => ?_
    simp only [decide_eq_true_eq, @eq_comm _ b.id]

-- A finalized batch all of whose runs succeeded is completed.
theorem Followed.completed_of_succeeded (h : c.Followed) (l : Linked c) (hb : b ∈ c.batches)
    (hf : b.finalizedAt.isSome) (hs : ∀ st ∈ c.childStates b.id, st = .succeeded) :
    b.state.isCompleted := by
  have hc : b.state ≠ .cancelled := fun hc => nomatch hs _ <| (h b hb).cancelled hf hc
  refine (l.runs_of_finalized hb hf hc).resolve_left fun hr => ?_
  have ⟨st, hm, hx⟩ := (h b hb).running hr
  simp [hs st hm, RunState.isActive, RunState.isTerminal] at hx

namespace Follows

theorem of_childStates (h : c.Follows b) (hs : c'.childStates b.id = c.childStates b.id) : c'.Follows b :=
  ⟨hs ▸ h.completed, hs ▸ h.running, hs ▸ h.cancelled, hs ▸ h.done⟩

-- A batch that still collects, or could not, says nothing about runs.
theorem of_open (hs : b.state ≠ .running ∧ b.state ≠ .cancelled ∧ b.state.isCompleted = false) :
    c.Follows b := by
  constructor
  case completed => simp [hs]
  case running => simp [hs]
  case cancelled => simp [hs]
  case done => exact fun hc => by simp [hc, BatchState.isCompleted] at hs

-- The batch is told that one of its runs is now in state `st`, or that a cancelled one is queued.
theorem settle (hr : run ∈ c.runs) (hb : run.batchId = some b.id)
    (hs : run.state = st ∨ run.state = .cancelled ∧ st = .queued)
    (ht : st.isTerminal → b.state.isCompleted = false)
    (hc : b.finalizedAt.isSome → b.state = .cancelled → .cancelled ∈ c.childStates b.id) :
    c.Follows (b.withState (c.settled b st)) := by
  have hm : run.state ∈ c.childStates b.id := mem_childStates.mpr ⟨run, hr, hb, rfl⟩
  have hn : c.childRuns b.id ≠ [] :=
    List.ne_nil_of_mem (Table.mem_select.mpr ⟨hr, by simp [hb]⟩ : run ∈ c.childRuns b.id)
  cases ho : st.isTerminal
  case false =>
    have hx : run.state.isActive ∨ run.state = .cancelled := by
      rcases hs with hs | ⟨hs, -⟩
      case inl => exact .inl <| by simp [hs, ho, RunState.isActive]
      case inr => exact .inr hs
    have hi : c.settled b st = if b.state.isCompleted then .running else b.state := by simp [settled, ho]
    cases hd : b.state.isCompleted
    case true =>
      rw [hi, hd, if_pos rfl]
      exact ⟨by rintro ⟨⟩, fun _ => ⟨_, hm, hx⟩, by rintro _ ⟨⟩, by rintro ⟨⟩⟩
    case false =>
      rw [hi, hd, if_neg Bool.false_ne_true]
      refine ⟨fun hs => ?_, fun _ => ⟨_, hm, hx⟩, hc, fun hs => ?_⟩
      · cases hd.symm.trans hs
      · have hs : b.state = .completedWithErrors := hs
        simp [hs, BatchState.isCompleted] at hd
  case true =>
    have hd := ht ho
    by_cases hx : b.state = .running ∧ ∀ st ∈ c.childStates b.id, st.isTerminal
    case pos =>
      have hi : c.settled b st = b.completion (c.childRuns b.id) := by
        simp [settled, ho, hx.left, hn, all_childStates.mpr hx.right]
      have hk := b.completion_isCompleted (c.childRuns b.id)
      rw [hi]
      refine ⟨fun _ => hx.right, fun hs => ?_, fun _ hs => ?_, fun hs ha hq => ?_⟩
      · have hs : b.completion (c.childRuns b.id) = .running := hs
        simp [hs, BatchState.isCompleted] at hk
      · have hs : b.completion (c.childRuns b.id) = .cancelled := hs
        simp [hs, BatchState.isCompleted] at hk
      · have hs : b.completion (c.childRuns b.id) = .completedWithErrors := hs
        have hq : b.quarantined = 0 := hq
        have hr : (c.childRuns b.id).all (·.state = .succeeded) := by
          simp only [List.all_eq_true, childRuns, Table.mem_select, decide_eq_true_eq]
          exact fun run h => ha _ <| mem_childStates.mpr ⟨run, h.left, h.right, rfl⟩
        simp [Batch.completion, hr, hq] at hs
    case neg =>
      have hi : c.settled b st = b.state := by
        simp only [settled, ho, if_true]
        refine if_neg fun h => hx ?_
        simp only [Bool.and_eq_true, decide_eq_true_eq] at h
        exact ⟨h.left.left, all_childStates.mp h.right⟩
      rw [hi]
      refine ⟨fun hs => ?_, fun hs => ?_, hc, fun hs => ?_⟩
      · cases hd.symm.trans hs
      · obtain ⟨st, hm, ha⟩ := not_forall₂.mp fun h => hx ⟨hs, h⟩
        exact ⟨st, hm, .inl <| by simpa [RunState.isActive] using ha⟩
      · have hs : b.state = .completedWithErrors := hs
        simp [hs, BatchState.isCompleted] at hd

end Follows

namespace Followed

variable {op : Op} {entries : List LogEntry} {batch : Batch}

-- An update of batches after which every changed one still follows its runs.
theorem of_update (h : c.Followed) {p : Batch → Bool} {f : Batch → Batch}
    (hc : c'.batches.rows = c.batches.rows.map fun b => if p b then f b else b)
    (hp : ∀ b ∈ c.batches, p b → c'.Follows (f b))
    (hs : ∀ b ∈ c.batches, ¬p b → c'.childStates b.id = c.childStates b.id) : c'.Followed := by
  intro b' hb'
  rw [← Table.mem_rows, hc] at hb'
  obtain ⟨b, hb, rfl⟩ := List.mem_map.mp hb'
  split
  case isTrue hx => exact hp b hb hx
  case isFalse hx => exact (h b hb).of_childStates <| hs b hb hx

theorem of_same (h : c.Followed) (hb : c'.batches = c.batches)
    (hs : ∀ id, c'.childStates id = c.childStates id) : c'.Followed :=
  fun b hm => (h b <| hb ▸ hm).of_childStates <| hs b.id

theorem setRun_sync (h : c.Followed) (l : Linked c) {attempts : Table Attempt} {allows : RunState → Bool}
    {f : Run → Run} {hf} (hb : ∀ run, (f run).ref = run.ref) (hr : c.runs.get? r = some run)
    (hc : run.state = .cancelled → allows .cancelled = false) {run' : Run}
    (hs : run'.state = st ∨ run'.state = .cancelled ∧ st = .queued) (ht : st.isTerminal → run.state.isActive)
    (he : (if allows run.state then f run else run) = run') :
    Followed ((Core.setRun { c with attempts } r allows f hf).sync r st) := by
  have hk : run.id = r := Table.key_of_get? hr
  have hb' run : (f run).batchId = run.batchId := congrArg (·.2.1) (hb run)
  have hx : run'.ref = run.ref := by
    rw [← he]
    split
    case isTrue => exact hb run
    case isFalse => rfl
  have hl : Linked (Core.setRun { c with attempts } r allows f hf) := l.of_attempts.setRun hb
  have hr' : (Core.setRun { c with attempts } r allows f hf).runs.get? r = some run' := by
    simp [Core.setRun, hr, hk, he]
  have hbid : run'.batchId = run.batchId := congrArg (·.2.1) hx
  have hm : (sync _ r st).batches.rows = _ :=
    sync_batches hr' <| hl.whole run' (Table.mem_of_get? hr')
  refine h.of_update hm (fun b hm hi => ?_) fun b hm hi => ?_
  case refine_1 =>
    have hi : run.batchId = some b.id := hbid ▸ of_decide_eq_true hi
    have hs' := Follows.settle (b := b) (Table.mem_of_get? hr') (hbid.trans hi) hs (fun h' => ?_) fun hf hs => ?_
    · refine hs'.of_childStates ?_
      simp only [childStates, sync_runs]
    · by_contra hn
      have hx := (h b hm).completed (by simpa using hn) run.state <|
        mem_childStates.mpr ⟨run, Table.mem_of_get? hr, hi, rfl⟩
      simp [RunState.isActive, hx] at ht
      simp [ht] at h'
    · obtain ⟨run₁, hm₁, hb₁, hs₁⟩ := mem_childStates.mp <| (h b hm).cancelled hf hs
      refine mem_childStates.mpr ⟨run₁, List.mem_map.mpr ⟨run₁, hm₁, if_neg fun hp => ?_⟩, hb₁, hs₁⟩
      simp only [Bool.and_eq_true, decide_eq_true_eq] at hp
      obtain rfl : run₁ = run := Table.key_injOn hm₁ (Table.mem_of_get? hr) (hp.left.trans hk.symm)
      simp [hs₁, hc hs₁] at hp
  case refine_2 =>
    have hi : run.batchId ≠ some b.id := by simpa [hbid] using hi
    refine childStates_of_same ?_
    rw [sync_runs]
    refine .of_update rfl fun run₁ hm₁ hp => ?_
    simp only [Bool.and_eq_true, decide_eq_true_eq] at hp
    obtain rfl : run₁ = run := Table.key_injOn hm₁ (Table.mem_of_get? hr) (hp.left.trans hk.symm)
    simp [Run.stateIn, hb', hi]

theorem finalize (h : c.Followed) (l : Linked c) {items : List BatchItem} {c₁ : Core} {state : BatchState}
    {now : Time} (hq : state = .completedWithErrors → 0 < batch.quarantined)
    (hb : c.batches.get? batch.id = some batch) (hs : batch.state = .collecting)
    (hm : Materializes batch items c c₁)
    (ht : items ≠ [] ∧ state = .running ∨ items = [] ∧ state.isCompleted) :
    Followed (c₁.closeIngestion batch.id state now) := by
  have hr : (c₁.closeIngestion batch.id state now).batches.rows = c.batches.rows.map _ :=
    congrArg (fun t : Table Batch => t.rows.map _) hm.batches
  have hn : c.childStates batch.id = [] := List.filterMap_eq_nil_iff.mpr fun run hr => by
    simp [Run.stateIn, l.no_child hb hs hr]
  refine h.of_update hr (fun b hb' hp => ?_) fun b hb' hp => ?_
  case refine_1 =>
    simp only [Bool.and_eq_true, decide_eq_true_eq] at hp
    obtain rfl : b = batch := Table.key_injOn hb' (Table.mem_of_get? hb) hp.left
    rcases ht with ⟨hn, rfl⟩ | ⟨rfl, ht⟩
    case inl =>
      refine ⟨nofun, fun _ => ?_, nofun, nofun⟩
      have ⟨run, hr, hb, ha⟩ := hm.hasActiveChild hn
      exact ⟨_, mem_childStates.mpr ⟨run, hr, hb, rfl⟩, .inl ha⟩
    case inr =>
      cases hm
      have hn : (c.closeIngestion b.id state now).childStates b.id = [] := hn
      refine ⟨fun _ => ?_, fun hs => ?_, fun _ hs => ?_, fun hs _ => ?_⟩
      · simp [hn]
      · have hs : state = .running := hs
        simp [hs, BatchState.isCompleted] at ht
      · have hs : state = .cancelled := hs
        simp [hs, BatchState.isCompleted] at ht
      · exact (hq hs).ne'
  case refine_2 =>
    have hk : b.id ≠ batch.id := fun hk => hp <| by
      rw [Table.key_injOn hb' (Table.mem_of_get? hb) hk]
      simp [hs]
    refine childStates_of_extends <| hm.extends_runs fun run _ hb => ?_
    simp [Run.stateIn, hb, hk.symm]

theorem poison (h : c.Followed) (l : Linked c) (t : c.Tracked) {poisoned : Uuid → Bool} :
    Followed (c.poison poisoned) := by
  -- The batch of an item that is hit has a run that did not succeed; other batches keep their runs.
  have hit {b : Batch} (hb : b.id ∈ ((c.poisonedItems poisoned).map (·.batchId)).dedup) :
      ∃ st ∈ (c.poison poisoned).childStates b.id, st ≠ .succeeded := by
    obtain ⟨i, hi, hk⟩ := List.mem_map.mp <| List.mem_dedup.mp hb
    obtain ⟨hi, hp⟩ := Table.mem_select.mp hi
    simp only [Bool.and_eq_true, Option.any_eq_true] at hp
    obtain ⟨⟨r, hr, hx⟩, hs⟩ := hp
    obtain ⟨run, hm, he⟩ := l.item i hi r hr
    simp only [Run.ref, Prod.mk.injEq] at he
    refine ⟨_, mem_childStates.mpr ⟨_, List.mem_map.mpr ⟨run, hm, rfl⟩, ?_, rfl⟩, ?_⟩
    · split <;> simp [he, hk]
    · split
      case isTrue => rintro ⟨⟩
      case isFalse =>
        rcases (t i hi run hm <| he.left ▸ hr).of_poisonable hs with ⟨hq, -⟩ | ⟨hq, -⟩ | ⟨hq, -⟩ <;> simp [hq]
  have keep {b : Batch} {st : RunState} (hst : st ∈ c.childStates b.id) (hq : st ≠ .queued) :
      st ∈ (c.poison poisoned).childStates b.id := by
    obtain ⟨run, hr, hb, rfl⟩ := mem_childStates.mp hst
    exact mem_childStates.mpr ⟨run, List.mem_map.mpr ⟨run, hr, by simp [hq]⟩, hb, rfl⟩
  have from_old {b : Batch} {st : RunState} (hst : st ∈ (c.poison poisoned).childStates b.id) :
      st = .failed ∨ st ∈ c.childStates b.id := by
    obtain ⟨run', hr', hb, rfl⟩ := mem_childStates.mp hst
    obtain ⟨run, hr, rfl⟩ := List.mem_map.mp hr'
    split
    case isTrue => exact .inl rfl
    case isFalse hn =>
      rw [if_neg hn] at hb
      exact .inr <| mem_childStates.mpr ⟨run, hr, hb, rfl⟩
  refine h.of_update rfl (fun b hm hp => ?_) fun b hm hp => ?_
  case refine_1 =>
    obtain ⟨st, hst, hn⟩ := hit <| of_decide_eq_true hp
    have hall : ((c.failPoisoned poisoned).childRuns b.id).all (·.state.isTerminal) ↔
        ∀ st ∈ (c.poison poisoned).childStates b.id, st.isTerminal := all_childStates
    have hb := h b hm
    by_cases hx : b.state = .running ∧ ∀ st ∈ (c.poison poisoned).childStates b.id, st.isTerminal
    case pos =>
      have hd : (c.failPoisoned poisoned).drained b = .completedWithErrors := by
        simp [drained, hx.left, hall.mpr hx.right]
      rw [hd]
      exact ⟨fun _ => hx.right, by rintro ⟨⟩, by rintro _ ⟨⟩, fun _ ha => absurd (ha st hst) hn⟩
    case neg =>
      have hd : (c.failPoisoned poisoned).drained b = b.state := by
        refine if_neg fun h => hx ?_
        simp only [Bool.and_eq_true, decide_eq_true_eq] at h
        exact ⟨h.left, hall.mp h.right⟩
      rw [hd]
      refine ⟨fun hc st hst => ?_, fun hs => ?_, fun hf hs => ?_, fun _ ha => absurd (ha st hst) hn⟩
      · rcases from_old hst with rfl | hst
        case inl => rfl
        case inr => exact hb.completed hc st hst
      · obtain ⟨st, hm, ha⟩ := not_forall₂.mp fun h => hx ⟨hs, h⟩
        exact ⟨st, hm, .inl <| by simpa [RunState.isActive] using ha⟩
      · exact keep (hb.cancelled hf hs) (by rintro ⟨⟩)
  case refine_2 =>
    refine childStates_of_same <| .of_update rfl fun run hr hq => ?_
    simp only [Bool.and_eq_true, decide_eq_true_eq] at hq
    have hn : run.batchId ≠ some b.id := fun hb => hp ?_
    · simp [Run.stateIn, hn]
    -- The item of a queued run is queued as well, and so it is hit.
    obtain ⟨iid, hi⟩ := l.whole run hr b.id hb
    obtain ⟨i, hm, he⟩ := l.run run hr b.id iid hb hi
    simp only [BatchItem.ref, Prod.mk.injEq] at he
    have hx := (t i hm run hr he.right.right).of_active (by rw [hq.left]; rfl)
    refine decide_eq_true <| List.mem_dedup.mpr <| List.mem_map.mpr ⟨i, Table.mem_select.mpr ⟨hm, ?_⟩, he.right.left⟩
    simp [he, hq, hx, RunState.itemState, BatchItemState.isPoisonable]

theorem step (h : c.Followed) (l : Linked c) (t : c.Tracked) (o : Offers c)
    (ha : ∀ a ∈ c.attempts, op.concludes a → ∀ run, c.runs.get? a.runId = some run →
      run.state ≠ .cancelled → run.state.isActive)
    (hs : c.Step op entries c') : c'.Followed := by
  cases hs
  case unchanged => exact h
  case queueRun hb _ hi =>
    exact h.of_same rfl fun id => childStates_of_extends <| .of_insert hi <| by simp [Run.stateIn, hb]
  case openBatch batch batches hs hf hi =>
    intro b hb
    obtain hb | rfl := (Table.mem_of_insert hi).mp hb
    case inl => exact (h b hb).of_childStates rfl
    case inr => exact .of_open <| by simp [hs, BatchState.isCompleted]
  case ingest p f hf hp =>
    refine h.of_update rfl (fun b _ hb => .of_open ?_) fun _ _ _ => rfl
    rcases (hp b hb).right.right with hs | hs <;> simp [hs, BatchState.isCompleted]
  case collect batchId batch batchItems f hf hx hb hc hi =>
    refine h.of_update rfl (fun b hm hk => .of_open ?_) fun _ _ _ => rfl
    have hk' : batch.id = batchId := Table.key_of_get? hb
    obtain rfl : b = batch := Table.key_injOn hm (Table.mem_of_get? hb) <|
      (of_decide_eq_true hk).trans hk'.symm
    simp [hx, hc, BatchState.isCompleted]
  case finalize hq hb hs _ _ hm ht => exact h.finalize l hq hb hs hm ht
  case cancelBatch batchId batch _ hb ho =>
    have hk : batch.id = batchId := Table.key_of_get? hb
    refine h.of_update rfl (fun b hm hp => ?_) fun b hm hp => ?_
    case refine_1 =>
      refine ⟨by rintro ⟨⟩, by rintro ⟨⟩, fun hf _ => ?_, by rintro ⟨⟩⟩
      simp only [Bool.and_eq_true, decide_eq_true_eq] at hp
      have hr : b.state = .running := by
        obtain ⟨h₁, h₂⟩ := (l.staged b hm).closed hf
        cases hs : b.state <;> simp_all [BatchState.isIngesting, BatchState.isOpen]
      obtain ⟨st, hm', hx⟩ := (h b hm).running hr
      obtain ⟨run, hr, hb, rfl⟩ := mem_childStates.mp hm'
      refine mem_childStates.mpr ⟨_, List.mem_map.mpr ⟨run, hr, rfl⟩, ?_⟩
      split
      case isTrue => exact ⟨hb, rfl⟩
      case isFalse hn =>
        refine ⟨hb, hx.resolve_left fun ha => hn ?_⟩
        simp [hb, hp, ha]
    case refine_2 =>
      refine childStates_of_same <| .of_update rfl fun run hr hp' => ?_
      simp only [Bool.and_eq_true, decide_eq_true_eq] at hp'
      have hn : batchId ≠ b.id := fun hn => hp <| by
        obtain rfl : b = batch := Table.key_injOn hm (Table.mem_of_get? hb) <| hn.symm.trans hk.symm
        simp [hk, ho]
      simp [Run.stateIn, hp', hn]
  case poison => exact h.poison l t
  case accept hc =>
    subst hc
    exact h.of_same rfl fun id => childStates_of_same <| .of_update rfl fun _ _ _ => rfl
  case renew | expire => exact h.of_same rfl fun _ => rfl
  case finish hc | finishExpired hc =>
    cases hc
    case late => exact h.of_same rfl fun _ => rfl
    case applied run _ _ _ hm hp hr hs =>
      have hk : run.id = _ := Table.key_of_get? hr
      refine h.setRun_sync l (fun _ => rfl) (hk ▸ hr) (fun hc => absurd hc hs) (.inl rfl)
        (fun _ => ha _ (Table.mem_of_get? hm) ⟨rfl, hp⟩ run hr hs) rfl
  case offer hr hq _ _ _ hi =>
    exact h.setRun_sync l (fun _ => rfl) hr (fun _ => rfl) (.inl <| by simp [hq]) (by rintro ⟨⟩) rfl
  case cancelRun hr hs =>
    exact h.setRun_sync l (fun _ => rfl) hr (fun _ => rfl) (.inl <| by simp [hs]) (fun _ => hs) rfl
  case retryRun hr hs =>
    exact h.setRun_sync l (fun _ => rfl) hr (fun _ => rfl) (.inl <| by simp [hs]) (by rintro ⟨⟩) rfl
  case release a id ho hs | reject a _ _ _ _ id ho hs _ =>
    obtain ⟨run, hr, hx⟩ := o.run a (Table.mem_of_get? ho) hs
    refine h.setRun_sync l (fun _ => rfl) hr (fun _ => rfl) ?_ (by rintro ⟨⟩) rfl
    rcases hx with hx | hx
    case inl => exact .inl <| by simp [hx]
    case inr => exact .inr <| by simp [hx]

end Followed

end Core

end Scheduler
