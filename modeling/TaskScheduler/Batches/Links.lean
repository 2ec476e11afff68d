import TaskScheduler.Store.Effects

namespace Scheduler

-- The columns that tie runs, items and batches together.
def Run.ref (run : Run) : Uuid × Option Uuid × Option Uuid :=
  (run.id, run.batchId, run.batchItemId)

def BatchItem.ref (item : BatchItem) : Uuid × Uuid × Option Uuid :=
  (item.id, item.batchId, item.runId)

def Batch.ref (batch : Batch) : Uuid × Option Time :=
  (batch.id, batch.finalizedAt)

-- A batch is finalized before it runs, and never collects again.
structure Batch.Staged (b : Batch) : Prop where
  closed : b.finalizedAt.isSome → b.state.isIngesting = false ∧ b.state ≠ .failed
  opened : b.state = .running ∨ b.state.isCompleted → b.finalizedAt.isSome

namespace Batch.Staged

variable {b b' : Batch}

theorem of_state (s : b.Staged) (hf : b'.finalizedAt = b.finalizedAt) (hs : b'.state = b.state) :
    b'.Staged where
  closed h := hs ▸ s.closed (hf ▸ h)
  opened h := hf ▸ s.opened (hs ▸ h)

-- A batch that runs or has run may go from one to the other.
theorem of_finalized (s : b.Staged) (hf : b'.finalizedAt = b.finalizedAt)
    (hs : b.state = .running ∨ b.state.isCompleted) (hs' : b'.state = .running ∨ b'.state.isCompleted) :
    b'.Staged where
  closed _ := by
    rcases hs' with hs' | hs' <;> cases h : b'.state <;>
      simp_all [BatchState.isCompleted, BatchState.isIngesting]
  opened _ := hf ▸ s.opened hs

theorem of_cancelled (h : b.state = .cancelled) : b.Staged where
  closed _ := by simp [h, BatchState.isIngesting]
  opened h' := by simp [h, BatchState.isCompleted] at h'

theorem of_unfinalized (hf : b.finalizedAt = none)
    (hs : b.state ≠ .running ∧ b.state.isCompleted = false) : b.Staged where
  closed h := by simp [hf] at h
  opened h := by simp [hs] at h

theorem not_finalized (s : b.Staged) (h : b.state.isIngesting) : b.finalizedAt = none := by
  by_contra hn
  have hc := (s.closed <| Option.isSome_iff_ne_none.mpr hn).left
  simp [h] at hc

end Batch.Staged

theorem Batch.completion_isCompleted (b : Batch) (children : List Run) :
    (b.completion children).isCompleted := by
  simp only [Batch.completion]
  split <;> rfl

namespace Core

-- A run and the item it was materialized from point at each other.
structure Paired (c : Core) : Prop where
  whole : ∀ run ∈ c.runs, ∀ b, run.batchId = some b → ∃ i, run.batchItemId = some i
  item  : ∀ i ∈ c.batchItems, ∀ r, i.runId = some r → ∃ run ∈ c.runs, run.ref = (r, some i.batchId, some i.id)
  run   : ∀ run ∈ c.runs, ∀ b i, run.batchId = some b → run.batchItemId = some i →
    ∃ item ∈ c.batchItems, item.ref = (i, b, some run.id)

-- Only finalized batches have runs.
structure Linked (c : Core) : Prop extends Paired c where
  batch  : ∀ run ∈ c.runs, ∀ b, run.batchId = some b →
    ∃ batch ∈ c.batches, batch.id = b ∧ batch.finalizedAt.isSome
  staged : ∀ b ∈ c.batches, b.Staged

variable {c c' : Core} {r : Uuid} {st : RunState}

theorem Paired.congr (h : Paired c) (hr : Table.Same Run.ref c.runs c'.runs)
    (hi : Table.Same BatchItem.ref c.batchItems c'.batchItems) : Paired c' := by
  constructor
  case whole =>
    intro run' hr' b hb
    have ⟨run, hm, he⟩ := hr.exists_left hr'
    simp only [Run.ref, Prod.mk.injEq] at he
    exact he.right.right ▸ h.whole run hm b (he.right.left.trans hb)
  case item =>
    intro i' hi' r hr'
    have ⟨i, hm, he⟩ := hi.exists_left hi'
    simp only [BatchItem.ref, Prod.mk.injEq] at he
    have ⟨run, hm, hx⟩ := h.item i hm r (he.right.right.trans hr')
    have ⟨run', hm', he'⟩ := hr.exists_right hm
    exact ⟨run', hm', by rw [he', hx, he.left, he.right.left]⟩
  case run =>
    intro run' hr' b i hb hi'
    have ⟨run, hm, he⟩ := hr.exists_left hr'
    simp only [Run.ref, Prod.mk.injEq] at he
    have ⟨item, hm, hx⟩ := h.run run hm b i (he.right.left.trans hb) (he.right.right.trans hi')
    have ⟨item', hm', he'⟩ := hi.exists_right hm
    exact ⟨item', hm', by rw [he', hx, he.left]⟩

theorem Linked.congr (h : Linked c) (hr : Table.Same Run.ref c.runs c'.runs)
    (hi : Table.Same BatchItem.ref c.batchItems c'.batchItems)
    (hb : Table.Same Batch.ref c.batches c'.batches) (hs : ∀ b ∈ c'.batches, b.Staged) : Linked c' where
  toPaired := h.toPaired.congr hr hi
  staged   := hs
  batch    := by
    intro run' hr' b hb'
    have ⟨run, hm, he⟩ := hr.exists_left hr'
    simp only [Run.ref, Prod.mk.injEq] at he
    have ⟨batch, hm, hx, hf⟩ := h.batch run hm b (he.right.left.trans hb')
    have ⟨batch', hm', he'⟩ := hb.exists_right hm
    simp only [Batch.ref, Prod.mk.injEq] at he'
    exact ⟨batch', hm', he'.left.trans hx, he'.right ▸ hf⟩

theorem settled_cases (c : Core) (b : Batch) (st : RunState) : c.settled b st = b.state ∨
    (b.state = .running ∨ b.state.isCompleted) ∧
      (c.settled b st = .running ∨ (c.settled b st).isCompleted) := by
  simp only [settled]
  repeat' split
  any_goals exact .inl rfl
  case _ h =>
    have hs : b.state = .running := by simp_all
    exact .inr ⟨.inl hs, .inr <| b.completion_isCompleted _⟩
  case _ h => exact .inr ⟨.inr h, .inl rfl⟩

theorem drained_cases (c : Core) (b : Batch) : c.drained b = b.state ∨
    b.state = .running ∧ c.drained b = .completedWithErrors := by
  simp only [drained]
  split
  case isTrue h => exact .inr ⟨by simp_all, rfl⟩
  case isFalse => exact .inl rfl

namespace Linked

theorem of_attempts (h : Linked c) {attempts : Table Attempt} : Linked { c with attempts } :=
  h.congr .refl .refl .refl h.staged

theorem setRun (h : Linked c) {allows : RunState → Bool} {f : Run → Run} {hf}
    (hr : ∀ run, (f run).ref = run.ref) : Linked (c.setRun r allows f hf) :=
  h.congr (.of_update rfl fun _ _ _ => hr _) .refl .refl h.staged

theorem sync (h : Linked c) : Linked (c.sync r st) := by
  simp only [Core.sync]
  split
  case h_1 => exact h
  case h_2 =>
    refine h.congr .refl (.of_update rfl fun _ _ _ => rfl) (.of_update rfl fun _ _ _ => rfl) ?_
    refine List.forall_mem_map.mpr fun b hb => ?_
    have hs := h.staged b hb
    split
    case isFalse => exact hs
    case isTrue =>
      rcases c.settled_cases b st with he | ⟨h₁, h₂⟩
      case inl => exact hs.of_state rfl he
      case inr => exact hs.of_finalized rfl h₁ h₂

theorem insert_run (h : Linked c) {run : Run} {runs : Table Run} (hb : run.batchId = none)
    (hi : c.runs.insert run = some runs) : Linked { c with runs } := by
  refine ⟨⟨?whole, ?item, ?run⟩, ?batch, h.staged⟩
  case whole =>
    intro run' hr' b hb'
    obtain hr' | rfl := (Table.mem_of_insert hi).mp hr'
    case inl => exact h.whole run' hr' b hb'
    case inr => simp [hb] at hb'
  case item =>
    intro i hi' r hr
    have ⟨run', hr', he⟩ := h.item i hi' r hr
    exact ⟨run', (Table.mem_of_insert hi).mpr <| .inl hr', he⟩
  case run =>
    intro run' hr' b i hb' hi'
    obtain hr' | rfl := (Table.mem_of_insert hi).mp hr'
    case inl => exact h.run run' hr' b i hb' hi'
    case inr => simp [hb] at hb'
  case batch =>
    intro run' hr' b hb'
    obtain hr' | rfl := (Table.mem_of_insert hi).mp hr'
    case inl => exact h.batch run' hr' b hb'
    case inr => simp [hb] at hb'

theorem insert_batch (h : Linked c) {batch : Batch} {batches : Table Batch} (hs : batch.Staged)
    (hi : c.batches.insert batch = some batches) : Linked { c with batches } where
  toPaired := ⟨h.whole, h.item, h.run⟩
  batch    := by
    intro run hr b hb
    have ⟨batch', hm, he⟩ := h.batch run hr b hb
    exact ⟨batch', (Table.mem_of_insert hi).mpr <| .inl hm, he⟩
  staged   := by
    intro b hb
    obtain hb | rfl := (Table.mem_of_insert hi).mp hb
    case inl => exact h.staged b hb
    case inr => exact hs

-- A batch that has a run does not collect items any more.
theorem closed (h : Linked c) {b : Batch} (hb : b ∈ c.batches) {run : Run} (hr : run ∈ c.runs)
    (he : run.batchId = some b.id) : b.state.isIngesting = false := by
  have ⟨b', hm, hk, hf⟩ := h.batch run hr b.id he
  obtain rfl : b' = b := Table.key_injOn hm hb hk
  exact ((h.staged b' hm).closed hf).left

-- No item of a batch that still collects has a run.
theorem no_run (h : Linked c) {b : Batch} (hb : b ∈ c.batches) (hs : b.state.isIngesting) {i : BatchItem}
    (hi : i ∈ c.batchItems) (hi' : i.batchId = b.id) : i.runId = none := by
  cases hr : i.runId
  case none => rfl
  case some r =>
    have ⟨run, hm, he⟩ := h.item i hi r hr
    simp only [Run.ref, Prod.mk.injEq] at he
    simp [h.closed hb hm (hi' ▸ he.right.left)] at hs

theorem runId_none (h : Linked c) {batch : Batch} (hb : c.batches.get? batch.id = some batch)
    (hs : batch.state = .collecting) {i : BatchItem} (hi : i ∈ c.batchItems)
    (hi' : i.batchId = batch.id) : i.runId = none :=
  h.no_run (Table.mem_of_get? hb) (by simp [hs, BatchState.isIngesting]) hi hi'

theorem no_child (h : Linked c) {batch : Batch} (hb : c.batches.get? batch.id = some batch)
    (hs : batch.state = .collecting) {run : Run} (hr : run ∈ c.runs) : run.batchId ≠ some batch.id := by
  intro he
  have hc := h.closed (Table.mem_of_get? hb) hr he
  simp [hs, BatchState.isIngesting] at hc

end Linked

section Collection

variable {batchId : Uuid} {items items' : Table BatchItem}

-- A page neither touches nor adds items that have a run.
theorem Collects.of_runs (h : Collects batchId items items')
    (hn : ∀ i ∈ items, i.batchId = batchId → i.runId = none) :
    (∀ i ∈ items', i ∈ items ∨ i.runId = none) ∧ ∀ i ∈ items, i.runId.isSome → i ∈ items' := by
  induction h
  case refl => exact ⟨fun i hi => .inl hi, fun i hi _ => hi⟩
  case add items₁ items₂ items item hb hr hs hi _ ih =>
    have hm {i} : i ∈ items₁ ↔ i ∈ items ∨ i = item := Table.mem_of_insert hi
    have ⟨h₁, h₂⟩ := ih fun i hi hb => by
      obtain hi | rfl := hm.mp hi
      case inl => exact hn i hi hb
      case inr => exact hr
    refine ⟨fun i hi => ?_, fun i hi => h₂ i <| hm.mpr <| .inl hi⟩
    obtain hi | hi := h₁ i hi
    case inr => exact .inr hi
    case inl =>
      obtain hi | rfl := hm.mp hi
      case inl => exact .inl hi
      case inr => exact .inr hr
  case invalidate items item items₂ hi hb hs _ ih =>
    have hu i (h : i ∈ items) (hk : i.id = item.id) : i.runId = none :=
      Table.key_injOn h hi hk ▸ hn item hi hb
    have ⟨h₁, h₂⟩ := ih <| List.forall_mem_map.mpr fun i hi hb => by
      split
      case isTrue hk => exact hu i hi <| of_decide_eq_true hk
      case isFalse hk =>
        simp only [hk] at hb
        exact hn i hi hb
    constructor
    case left =>
      intro i hi
      obtain hi | hi := h₁ i hi
      case inr => exact .inr hi
      case inl =>
        have ⟨j, hj, he⟩ := List.mem_map.mp hi
        split at he
        case isTrue hk => exact .inr <| he ▸ hu j hj (of_decide_eq_true hk)
        case isFalse => exact .inl <| he ▸ hj
    case right =>
      intro i hi hr
      refine h₂ i (List.mem_map.mpr ⟨i, hi, if_neg fun hk => ?_⟩) hr
      simp [hu i hi <| of_decide_eq_true hk] at hr

end Collection

section Materialization

variable {batch : Batch} {items : List BatchItem}

-- The invariant rule of the materialization loop: every turn finds its item as it was selected.
theorem Materializes.preserves {P : Core → Prop} (h : Materializes batch items c c')
    (step : ∀ c item run runs, P c → item ∈ c.batchItems → item.batchId = batch.id →
      item.state = .ready → run.Fresh → run.batchId = some batch.id → run.batchItemId = some item.id →
      c.runs.insert run = some runs → P (queueItem { c with runs } item.id run.id))
    (hn : (items.map BatchItem.id).Nodup)
    (hi : ∀ i ∈ items, i ∈ c.batchItems ∧ i.batchId = batch.id ∧ i.state = .ready) (hc : P c) :
    P c' := by
  induction h
  case nil => exact hc
  case cons items c c' item run runs hf hb hb' hr _ ih =>
    have ⟨hx, hn⟩ := List.nodup_cons.mp hn
    have ⟨⟨h₁, h₂, h₃⟩, hi⟩ := List.forall_mem_cons.mp hi
    refine ih hn (fun i hm => ?_) <| step c item run runs hc h₁ h₂ h₃ hf hb hb' hr
    have ⟨hi, hs⟩ := hi i hm
    have hk : i.id ≠ item.id := fun hk => hx <| List.mem_map.mpr ⟨i, hm, hk⟩
    exact ⟨List.mem_map.mpr ⟨i, hi, by simp [hk]⟩, hs⟩

theorem Materializes.batches (h : Materializes batch items c c') : c'.batches = c.batches := by
  induction h
  case nil => rfl
  case cons ih => exact ih

theorem Paired.queueItem (h : Paired c) {item : BatchItem} {run : Run} {runs : Table Run}
    (hi : item ∈ c.batchItems) (hs : item.state = .ready) (hn : item.runId = none)
    (hb : run.batchId = some item.batchId) (hb' : run.batchItemId = some item.id)
    (hr : c.runs.insert run = some runs) :
    Paired (Core.queueItem { c with runs } item.id run.id) := by
  have hm {r} : r ∈ runs ↔ r ∈ c.runs ∨ r = run := Table.mem_of_insert hr
  constructor
  case whole =>
    intro run' hr' b hb
    obtain hr' | rfl := hm.mp hr'
    case inl => exact h.whole run' hr' b hb
    case inr => exact ⟨_, hb'⟩
  case item =>
    refine List.forall_mem_map.mpr fun i hi' r hr' => ?_
    split at hr'
    case isTrue hk =>
      obtain rfl : i = item := Table.key_injOn hi' hi <| by simp_all [Keyed.key]
      exact ⟨run, hm.mpr <| .inr rfl, by simp [Run.ref, hb, hb', hs, Option.some.inj hr']⟩
    case isFalse hk =>
      simp only [hk]
      have ⟨run', hr', he⟩ := h.item i hi' r hr'
      exact ⟨run', hm.mpr <| .inl hr', he⟩
  case run =>
    intro run' hr' b i hb₁ hi₁
    obtain hr' | rfl := hm.mp hr'
    case inl =>
      have ⟨item', hm', he⟩ := h.run run' hr' b i hb₁ hi₁
      have hk : item'.id ≠ item.id := fun hk => by
        rw [Table.key_injOn hm' hi hk] at he
        simp [BatchItem.ref, hn] at he
      exact ⟨item', List.mem_map.mpr ⟨item', hm', by simp [hk]⟩, he⟩
    case inr =>
      refine ⟨_, List.mem_map.mpr ⟨item, hi, if_pos <| by simp [hs]⟩, ?_⟩
      simp only [hb, Option.some.injEq] at hb₁
      simp only [hb', Option.some.injEq] at hi₁
      simp [BatchItem.ref, hb₁, hi₁]

end Materialization

namespace Linked

variable {batch : Batch} {batchId : Uuid} {op : Op} {entries : List LogEntry}

theorem collect (h : Linked c) {batchItems : Table BatchItem} {f : Batch → Batch} {hf}
    (hs : ∀ b, (f b).state = b.state ∧ (f b).finalizedAt = b.finalizedAt)
    (hb : c.batches.get? batchId = some batch) (hc : batch.state = .collecting)
    (hi : Collects batchId c.batchItems batchItems) :
    Linked { c with batches := c.batches.update (·.id = batchId) f hf, batchItems } := by
  have hk : batch.id = batchId := Table.key_of_get? hb
  have ⟨h₁, h₂⟩ := hi.of_runs fun i hm hb' => h.runId_none (hk ▸ hb) hc hm (hb'.trans hk.symm)
  have hp : Paired { c with batchItems } := by
    refine ⟨h.whole, fun i hm r hr => ?_, fun run hr b i hb hi => ?_⟩
    · obtain hm | hn := h₁ i hm
      case inl => exact h.item i hm r hr
      case inr => simp [hn] at hr
    · have ⟨item, hm, he⟩ := h.run run hr b i hb hi
      refine ⟨item, h₂ item hm ?_, he⟩
      simp only [BatchItem.ref, Prod.mk.injEq] at he
      simp [he]
  have hl : Linked { c with batchItems } := ⟨hp, h.batch, h.staged⟩
  refine hl.congr .refl .refl (.of_update rfl fun b _ _ => ?_) (List.forall_mem_map.mpr fun b hb => ?_)
  · exact Prod.ext (hf b) (hs b).right
  · split
    case isTrue => exact (h.staged b hb).of_state (hs b).right (hs b).left
    case isFalse => exact h.staged b hb

-- Apart from the new runs, materialization leaves everything linked; the batch becomes finalized
-- together with them.
theorem finalize (h : Linked c) {items : List BatchItem} {state : BatchState} {now : Time} {c₁ : Core}
    (hb : c.batches.get? batch.id = some batch) (hs : batch.state = .collecting)
    (hn : (items.map BatchItem.id).Nodup)
    (hi : ∀ i, i ∈ items ↔ i ∈ c.batchItems ∧ i.batchId = batch.id ∧ i.state = .ready)
    (hm : Materializes batch items c c₁) (hc : state = .running ∨ state.isCompleted) :
    Linked (c₁.closeIngestion batch.id state now) := by
  let P (c' : Core) : Prop := c'.Paired ∧
    (∀ i ∈ c'.batchItems, i.batchId = batch.id → i.state = .ready → i.runId = none) ∧
    ∀ run ∈ c'.runs, ∀ b, run.batchId = some b → run ∈ c.runs ∨ b = batch.id
  have hp : P c₁ := by
    refine hm.preserves (fun c' item run runs hp hm hb hs hf hb₁ hi₁ hr => ?_) hn (fun i => (hi i).mp) ?_
    · obtain ⟨hp, hq, ht⟩ := hp
      refine ⟨hp.queueItem hm hs (hq item hm hb hs) (hb ▸ hb₁) hi₁ hr, ?_, fun run' hr' b hb => ?_⟩
      · refine List.forall_mem_map.mpr fun i hm => ?_
        split
        case isTrue => exact fun _ => nofun
        case isFalse => exact hq i hm
      · obtain hr' | rfl := (Table.mem_of_insert hr).mp hr'
        case inl => exact ht run' hr' b hb
        case inr => exact .inr <| Option.some.inj (hb.symm.trans hb₁)
    · exact ⟨h.toPaired, fun i hm hi _ => h.runId_none hb hs hm hi, fun run hr b _ => .inl hr⟩
  obtain ⟨hp, -, ht⟩ := hp
  have hbs := hm.batches
  refine ⟨⟨hp.whole, hp.item, hp.run⟩, fun run hr b hb' => ?_, ?_⟩
  · obtain hr | rfl := ht run hr b hb'
    case inl =>
      have ⟨b', hm, he, hf⟩ := h.batch run hr b hb'
      have hk : ¬b'.state = .collecting := fun hk => by
        simp [(h.staged b' hm).not_finalized (by simp [hk, BatchState.isIngesting])] at hf
      exact ⟨b', List.mem_map.mpr ⟨b', hbs ▸ hm, by simp [hk]⟩, he, hf⟩
    case inr =>
      have hm : batch ∈ c₁.batches := hbs ▸ Table.mem_of_get? hb
      exact ⟨_, List.mem_map.mpr ⟨batch, hm, if_pos <| by simp [hs]⟩, rfl, rfl⟩
  · refine List.forall_mem_map.mpr fun b hm => ?_
    split
    case isTrue =>
      refine ⟨fun _ => ?_, fun _ => rfl⟩
      rcases hc with rfl | hc
      case inl => simp [BatchState.isIngesting]
      case inr => cases state <;> simp_all [BatchState.isIngesting, BatchState.isCompleted]
    case isFalse => exact h.staged b (hbs ▸ hm)

theorem concludes (h : Linked c) {a : Attempt} {outcome} {p} (hc : Concludes c a outcome p c') :
    Linked c' := by
  cases hc
  case late => exact h.of_attempts
  case applied => exact .sync <| .setRun h.of_attempts fun _ => rfl

theorem step (h : Linked c) (hs : c.Step op entries c') : Linked c' := by
  cases hs
  case unchanged => exact h
  case queueRun hb _ hi => exact h.insert_run hb hi
  case openBatch hs hf hi =>
    exact h.insert_batch (.of_unfinalized hf <| by simp [hs, BatchState.isCompleted]) hi
  case ingest p f hf hp =>
    refine h.congr .refl .refl (.of_update rfl fun b _ hb => Prod.ext (hf b) (hp b hb).right.left)
      (List.forall_mem_map.mpr fun b hb => ?_)
    split
    case isFalse => exact h.staged b hb
    case isTrue hb' =>
      obtain ⟨hi, he, hs⟩ := hp b hb'
      refine .of_unfinalized (he.trans <| (h.staged b hb).not_finalized hi) ?_
      rcases hs with hs | hs <;> simp [hs, BatchState.isCompleted]
  case collect hs hb hc hi => exact h.collect hs hb hc hi
  case finalize hb hs hn hi hm ht =>
    refine h.finalize hb hs hn hi hm ?_
    rcases ht with ⟨-, ht⟩ | ⟨-, ht⟩
    case inl => exact .inl ht
    case inr => exact .inr ht
  case cancelBatch =>
    refine h.congr (.of_update rfl fun _ _ _ => rfl) (.of_update rfl fun _ _ _ => rfl)
      (.of_update rfl fun _ _ _ => rfl) (List.forall_mem_map.mpr fun b hb => ?_)
    split
    case isTrue => exact .of_cancelled rfl
    case isFalse => exact h.staged b hb
  case poison poisoned =>
    refine h.congr (.of_update rfl fun _ _ _ => rfl) (.of_update rfl fun _ _ _ => rfl)
      (.of_update rfl fun _ _ _ => rfl) (List.forall_mem_map.mpr fun b hb => ?_)
    split
    case isFalse => exact h.staged b hb
    case isTrue =>
      rcases (c.failPoisoned poisoned).drained_cases b with he | ⟨h₁, h₂⟩
      case inl => exact (h.staged b hb).of_state rfl he
      case inr => exact (h.staged b hb).of_finalized rfl (.inl h₁) (.inr <| by simp [h₂, BatchState.isCompleted])
  case accept hc => exact hc ▸ h.of_attempts.setRun fun _ => rfl
  case renew | expire => exact h.of_attempts
  case finish hc | finishExpired hc => exact h.concludes hc
  case cancelRun | retryRun => exact .sync <| .setRun h fun _ => rfl
  case offer | release | reject => exact .sync <| .setRun h.of_attempts fun _ => rfl

end Linked

section Cancelled

variable {batchId : Uuid} {op : Op} {entries : List LogEntry} {run : Run}

-- The batch `batchId` was cancelled.
def IsCancelled (c : Core) (batchId : Uuid) : Prop :=
  ∃ b ∈ c.batches, b.id = batchId ∧ b.state = .cancelled

theorem IsCancelled.of_update (h : c.IsCancelled batchId) {p : Batch → Bool} {f : Batch → Batch}
    (hc : c'.batches.rows = c.batches.rows.map fun b => if p b then f b else b)
    (hf : ∀ b ∈ c.batches, p b → b.state = .cancelled → (f b).id = b.id ∧ (f b).state = .cancelled) :
    c'.IsCancelled batchId := by
  have ⟨b, hb, hk, hs⟩ := h
  refine ⟨_, hc ▸ List.mem_map.mpr ⟨b, hb, rfl⟩, ?_⟩
  split
  case isFalse => exact ⟨hk, hs⟩
  case isTrue hp =>
    have ⟨hi, hs⟩ := hf b hb hp hs
    exact ⟨hi.trans hk, hs⟩

theorem IsCancelled.sync (h : c.IsCancelled batchId) : (c.sync r st).IsCancelled batchId := by
  simp only [Core.sync]
  split
  case h_1 => exact h
  case h_2 =>
    refine h.of_update rfl fun b _ _ hs => ⟨rfl, ?_⟩
    rcases c.settled_cases b st with he | ⟨ho, -⟩
    case inl => exact he.trans hs
    case inr => simp [hs, BatchState.isCompleted] at ho

-- No operation revives a cancelled batch.
theorem IsCancelled.step (h : c.IsCancelled batchId) (hs : c.Step op entries c') :
    c'.IsCancelled batchId := by
  cases hs
  case openBatch hi =>
    have ⟨b, hb, hx⟩ := h
    exact ⟨b, (Table.mem_of_insert hi).mpr <| .inl hb, hx⟩
  case ingest hp =>
    refine h.of_update rfl fun b _ hb hs => ?_
    have hi := (hp b hb).left
    simp [hs, BatchState.isIngesting] at hi
  case collect f hf hx _ _ _ => exact h.of_update rfl fun b _ _ hs => ⟨hf b, (hx b).left.trans hs⟩
  case finalize hm _ =>
    have ⟨b, hb, hx⟩ := h
    have h₁ : IsCancelled _ batchId := ⟨b, hm.batches ▸ hb, hx⟩
    refine h₁.of_update rfl fun b _ hb hs => ?_
    simp [hs] at hb
  case cancelBatch => exact h.of_update rfl fun b _ _ _ => ⟨rfl, rfl⟩
  case poison poisoned =>
    refine h.of_update rfl fun b _ _ hs => ⟨rfl, ?_⟩
    rcases (c.failPoisoned poisoned).drained_cases b with he | ⟨ho, -⟩
    case inl => exact he.trans hs
    case inr => simp [hs] at ho
  case accept hc => exact hc ▸ h
  case finish hc | finishExpired hc =>
    cases hc
    case late => exact h
    case applied => exact .sync h
  case offer | release | reject | cancelRun | retryRun => exact .sync h
  all_goals exact h

theorem Materializes.mem_runs {batch : Batch} {items : List BatchItem}
    (h : Materializes batch items c c') (hr : run ∈ c'.runs) :
    run ∈ c.runs ∨ run.batchId = some batch.id := by
  induction h
  case nil => exact .inl hr
  case cons hb _ hi _ ih =>
    obtain hr | hb' := ih hr
    case inr => exact .inr hb'
    case inl =>
      obtain hr | rfl := (Table.mem_of_insert hi).mp hr
      case inl => exact .inl hr
      case inr => exact .inr hb

-- Only a batch that still collects is given new runs.
theorem Step.child (hs : c.Step op entries c') (hr : run ∈ c'.runs) (hb : run.batchId = some batchId) :
    (∃ run' ∈ c.runs, run'.id = run.id ∧ run'.batchId = some batchId) ∨
    ∃ b ∈ c.batches, b.id = batchId ∧ b.state = .collecting := by
  have of_same (h : Table.Same Run.ref c.runs c'.runs) :
      ∃ run' ∈ c.runs, run'.id = run.id ∧ run'.batchId = some batchId := by
    have ⟨run', hm, he⟩ := h.exists_left hr
    simp only [Run.ref, Prod.mk.injEq] at he
    exact ⟨run', hm, he.left, he.right.left.trans hb⟩
  cases hs
  case queueRun hn _ hi =>
    obtain hr | rfl := (Table.mem_of_insert hi).mp hr
    case inl => exact .inl ⟨run, hr, rfl, hb⟩
    case inr => simp [hn] at hb
  case finalize hb' hs _ _ hm _ =>
    obtain hr | hx := hm.mem_runs hr
    case inl => exact .inl ⟨run, hr, rfl, hb⟩
    case inr =>
      exact .inr ⟨_, Table.mem_of_get? hb', Option.some.inj <| hx.symm.trans hb, hs⟩
  case accept hc => exact .inl <| of_same <| hc ▸ .of_update rfl fun _ _ _ => rfl
  case finish hc | finishExpired hc =>
    cases hc
    case late => exact .inl ⟨run, hr, rfl, hb⟩
    case applied =>
      refine .inl <| of_same ?_
      rw [sync_runs]
      exact .of_update rfl fun _ _ _ => rfl
  case cancelBatch | poison => exact .inl <| of_same <| .of_update rfl fun _ _ _ => rfl
  case offer | release | reject | cancelRun | retryRun =>
    refine .inl <| of_same ?_
    rw [sync_runs]
    exact .of_update rfl fun _ _ _ => rfl
  all_goals exact .inl ⟨run, hr, rfl, hb⟩

end Cancelled

end Core

namespace Store

variable {s : Store}

theorem linked_empty : Store.empty.core.Linked where
  whole  := fun _ h => absurd h Table.not_mem_empty
  item   := fun _ h => absurd h Table.not_mem_empty
  run    := fun _ h => absurd h Table.not_mem_empty
  batch  := fun _ h => absurd h Table.not_mem_empty
  staged := fun _ h => absurd h Table.not_mem_empty

theorem linked_exec (l : s.core.Linked) (op : Op) : (s.exec op).core.Linked :=
  l.step (s.exec_step op)

theorem Reachable.linked (h : s.Reachable) : s.core.Linked :=
  Machine.Reachable.invariant (I := (·.core.Linked)) (fun _ op l _ => linked_exec l op) h linked_empty

end Store

end Scheduler
