import TaskScheduler.Batches.Links

namespace Scheduler

-- What the state of an item says about the state of its run.
def BatchItemState.Reflects (st : BatchItemState) (run : RunState) : Prop :=
  st = run.itemState ∨ st = .poisoned ∧ run = .failed

instance {st : BatchItemState} {run : RunState} : Decidable (st.Reflects run) :=
  inferInstanceAs (Decidable (_ ∨ _))

theorem RunState.isTerminal_eq {st : RunState} : st.isTerminal = !st.isActive := by
  simp [RunState.isActive]

namespace Core

variable {c c' : Core} {r : Uuid} {st : RunState} {run : Run} {b : Batch}

-- The offer `id` is open, and its run is a child of a batch that was cancelled in the meantime.
def isStaleOffer (c : Core) (id : Uuid) (p : Attempt → Bool) : Bool :=
  (c.attempts.get? id).any fun a => a.state = .offered && p a &&
    (c.runs.get? a.runId).any fun run => run.state = .cancelled && run.batchId.isSome

-- An operation takes an offer back whose run was cancelled.
def requeuesCancelled (c : Core) : Op → Bool
  | .releaseOffer id            => c.isStaleOffer id fun _ => true
  | .rejectOffer id token _ _ _ => c.isStaleOffer id (·.leaseToken = token)
  | _                           => false

def HasActiveChild (c : Core) (batchId : Uuid) : Prop :=
  ∃ run ∈ c.runs, run.batchId = some batchId ∧ run.state.isActive

-- The states of items and batches agree with those of the runs.
structure Agrees (c : Core) : Prop where
  items   : ∀ i ∈ c.batchItems, ∀ run ∈ c.runs, i.runId = some run.id → i.state.Reflects run.state
  batches : ∀ b ∈ c.batches, b.finalizedAt.isSome → b.state ≠ .cancelled →
    (b.state = .running ↔ c.HasActiveChild b.id)

-- The same while the change of the run `r` has not been passed on.
structure AgreesExcept (c : Core) (r : Uuid) : Prop where
  items : ∀ i ∈ c.batchItems, ∀ run ∈ c.runs, run.id ≠ r → i.runId = some run.id →
    i.state.Reflects run.state
  busy  : ∀ b ∈ c.batches, b.finalizedAt.isSome → b.state ≠ .cancelled →
    ∀ run ∈ c.runs, run.id ≠ r → run.batchId = some b.id → run.state.isActive → b.state = .running
  idle  : ∀ b ∈ c.batches, b.state = .running →
    (∃ run ∈ c.runs, run.id = r ∧ run.batchId = some b.id) ∨ c.HasActiveChild b.id

theorem all_terminal_iff : (c.childRuns r).all (·.state.isTerminal) ↔ ¬c.HasActiveChild r := by
  simp [childRuns, HasActiveChild, RunState.isTerminal_eq]

theorem Linked.runs_of_finalized (l : Linked c) (hb : b ∈ c.batches) (hf : b.finalizedAt.isSome)
    (hc : b.state ≠ .cancelled) : b.state = .running ∨ b.state.isCompleted := by
  have ⟨h₁, h₂⟩ := (l.staged b hb).closed hf
  cases h : b.state <;> simp_all [BatchState.isIngesting, BatchState.isCompleted]

theorem Run.link_eq_some {bid iid : Uuid} :
    run.link = some (bid, iid) ↔ run.batchId = some bid ∧ run.batchItemId = some iid := by
  cases h₁ : run.batchId <;> cases h₂ : run.batchItemId <;> simp [Run.link, h₁, h₂]

namespace Agrees

theorem setRun (h : Agrees c) (l : Linked c) {allows : RunState → Bool} {f : Run → Run} {hf}
    (hb : ∀ run, (f run).batchId = run.batchId) : AgreesExcept (c.setRun r allows f hf) r := by
  have other {run'} (hm : run' ∈ (c.setRun r allows f hf).runs) (hn : run'.id ≠ r) :
      run' ∈ c.runs := by
    obtain ⟨run, hm, he⟩ := List.mem_map.mp hm
    split at he
    case isTrue hk =>
      have hi : (f run).id = run.id := hf run
      simp_all
    case isFalse => exact he ▸ hm
  constructor
  case items => exact fun i hi run hr hn => h.items i hi run (other hr hn)
  case busy =>
    intro b hm hf hc run hr hn hb' ha
    exact (h.batches b hm hf hc).mpr ⟨run, other hr hn, hb', ha⟩
  case idle =>
    intro b hm hs
    have hf' := (l.staged b hm).opened (.inl hs)
    obtain ⟨run, hr, hb', ha⟩ := (h.batches b hm hf' <| by simp [hs]).mp hs
    by_cases hi : run.id = r
    case neg =>
      exact .inr ⟨run, List.mem_map.mpr ⟨run, hr, by simp [hi]⟩, hb', ha⟩
    case pos =>
      refine .inl ⟨_, List.mem_map.mpr ⟨run, hr, rfl⟩, ?_⟩
      split
      case isTrue => exact ⟨(hf run).trans hi, (hb run).trans hb'⟩
      case isFalse => exact ⟨hi, hb'⟩

end Agrees

namespace AgreesExcept

-- A run outside of batches has nothing to pass on.
theorem of_unlinked (h : AgreesExcept c r) (hn : ∀ run ∈ c.runs, run.id = r → run.batchId = none)
    (l : Linked c) : Agrees c := by
  constructor
  case items =>
    intro i hi run hr he
    refine h.items i hi run hr (fun hk => ?_) he
    have ⟨run', hr', he'⟩ := l.item i hi run.id he
    simp only [Run.ref, Prod.mk.injEq] at he'
    simp [hn run' hr' (he'.left.trans hk)] at he'
  case batches =>
    intro b hb hf hc
    constructor
    case mp =>
      intro hs
      obtain ⟨run, hr, hk, hb'⟩ | ha := h.idle b hb hs
      case inl => simp [hn run hr hk] at hb'
      case inr => exact ha
    case mpr =>
      rintro ⟨run, hr, hb', ha⟩
      refine h.busy b hb hf hc run hr (fun hk => ?_) hb' ha
      simp [hn run hr hk] at hb'

-- The batch of the run `r` is settled: it runs if and only if one of its runs is active.
theorem settled_running_iff (h : AgreesExcept c r) (l : Linked c) (hr : c.runs.get? r = some run)
    (hs : run.state = st) (hb : b ∈ c.batches) (hb' : run.batchId = some b.id)
    (hf : b.finalizedAt.isSome) (hc : b.state ≠ .cancelled) :
    c.settled b st = .running ↔ c.HasActiveChild b.id := by
  have hm : run ∈ c.runs := Table.mem_of_get? hr
  have hk : run.id = r := Table.key_of_get? hr
  have hx : c.childRuns b.id ≠ [] :=
    List.ne_nil_of_mem (Table.mem_select.mpr ⟨hm, by simp [hb']⟩ : run ∈ c.childRuns b.id)
  have ho := l.runs_of_finalized hb hf hc
  cases ht : st.isTerminal
  case false =>
    have ha : c.HasActiveChild b.id := ⟨run, hm, hb', by simp [hs, RunState.isActive, ht]⟩
    simp only [settled, ht, ha, iff_true]
    rcases ho with ho | ho <;> simp [ho]
  case true =>
    by_cases ha : c.HasActiveChild b.id
    case pos =>
      obtain ⟨run', hm', hb'', ha'⟩ := id ha
      have hn : run'.id ≠ r := fun hn => by
        obtain rfl : run' = run := Table.key_injOn hm' hm (hn.trans hk.symm)
        simp [RunState.isActive, hs, ht] at ha'
      have hs' := h.busy b hb hf hc run' hm' hn hb'' ha'
      have hall : (c.childRuns b.id).all (·.state.isTerminal) = false :=
        eq_false_of_ne_true fun hall => all_terminal_iff.mp hall ha
      simp [settled, ht, hall, hs', ha]
    case neg =>
      have hall := all_terminal_iff.mpr ha
      simp only [settled, ht, hall, ha, iff_false, if_true]
      rcases ho with ho | ho
      case inl =>
        have hn : b.completion (c.childRuns b.id) ≠ .running := fun hn => by
          simpa [hn, BatchState.isCompleted] using b.completion_isCompleted (c.childRuns b.id)
        simp [ho, hx, hn]
      case inr =>
        have hn : b.state ≠ .running := fun hn => by simp [hn, BatchState.isCompleted] at ho
        simp [hn]

theorem sync_items (h : AgreesExcept c r) (l : Linked c) (hr : c.runs.get? r = some run)
    (hs : run.state = st) {bid iid : Uuid} (hb : run.batchId = some bid)
    (hi : run.batchItemId = some iid) {i : BatchItem} (hm : i ∈ c.batchItems) {run' : Run}
    (hm' : run' ∈ c.runs) (he : i.runId = some run'.id) :
    (if i.id = iid && i.batchId = bid then { i with state := st.itemState } else i).state.Reflects
      run'.state := by
  have hk : run.id = r := Table.key_of_get? hr
  split
  case isTrue hc =>
    -- The item and the run point at each other, so the item belongs to no other run.
    obtain ⟨item, hx, hy⟩ := l.run run (Table.mem_of_get? hr) bid iid hb hi
    simp only [BatchItem.ref, Prod.mk.injEq] at hy
    obtain rfl : i = item := Table.key_injOn hm hx <| by simp_all [Keyed.key]
    obtain rfl : run = run' := Table.key_injOn (Table.mem_of_get? hr) hm' <|
      Option.some.inj <| hy.right.right.symm.trans he
    exact .inl <| hs ▸ rfl
  case isFalse hc =>
    refine h.items i hm run' hm' (fun hn => hc ?_) he
    obtain ⟨run'', hx, hy⟩ := l.item i hm run'.id he
    simp only [Run.ref, Prod.mk.injEq] at hy
    obtain rfl : run'' = run := Table.key_injOn hx (Table.mem_of_get? hr) <|
      hy.left.trans <| hn.trans hk.symm
    simp_all

-- Passing the state of a run on restores the agreement.
theorem sync (h : AgreesExcept c r) (l : Linked c) (hr : c.runs.get? r = some run)
    (hs : run.batchId.isSome → run.state = st) : Agrees (c.sync r st) := by
  have hk : run.id = r := Table.key_of_get? hr
  have same {run'} (hm : run' ∈ c.runs) (hi : run'.id = r) : run' = run :=
    Table.key_injOn hm (Table.mem_of_get? hr) (hi.trans hk.symm)
  simp only [Core.sync, hr, Option.bind_some]
  cases hb : run.batchId
  case none =>
    have hl : run.link = none := by simp [Run.link, hb]
    simp only [hl]
    exact h.of_unlinked (fun run' hm hi => same hm hi ▸ hb) l
  case some bid =>
    obtain ⟨iid, hi⟩ := l.whole run (Table.mem_of_get? hr) bid hb
    have hs := hs (by simp [hb])
    simp only [Run.link_eq_some.mpr ⟨hb, hi⟩]
    constructor
    case items =>
      refine List.forall_mem_map.mpr fun i hm run' hm' he => ?_
      refine h.sync_items l hr hs hb hi hm hm' ?_
      split at he <;> exact he
    case batches =>
      refine List.forall_mem_map.mpr fun b hm => ?_
      by_cases hbid : b.id = bid
      case pos =>
        simp only [hbid, decide_true, if_true, Batch.withState]
        intro hf hc
        refine hbid ▸ h.settled_running_iff l hr hs hm (hbid ▸ hb) hf fun hn => hc ?_
        rcases c.settled_cases b st with he | ⟨ho, -⟩
        case inl => exact he.trans hn
        case inr => simp [hn, BatchState.isCompleted] at ho
      case neg =>
        simp only [hbid, decide_false]
        intro hf hc
        constructor
        case mp =>
          intro hs
          obtain ⟨run', hm', hi', hb'⟩ | ha := h.idle b hm hs
          case inl =>
            rw [same hm' hi', hb] at hb'
            exact absurd (Option.some.inj hb').symm hbid
          case inr => exact ha
        case mpr =>
          rintro ⟨run', hm', hb', ha⟩
          refine h.busy b hm hf hc run' hm' (fun hi' => hbid ?_) hb' ha
          rw [same hm' hi', hb] at hb'
          exact (Option.some.inj hb').symm

end AgreesExcept

-- The items and runs while `batch` is materialized; `c` is where that began.
structure Materializing (c : Core) (batch : Batch) (c' : Core) : Prop where
  items : ∀ i ∈ c'.batchItems, ∀ run ∈ c'.runs, i.runId = some run.id → i.state.Reflects run.state
  owned : ∀ i ∈ c'.batchItems, ∀ r, i.runId = some r → ∃ run ∈ c'.runs, run.id = r
  old   : ∀ run ∈ c.runs, run ∈ c'.runs
  new   : ∀ run ∈ c'.runs, run ∈ c.runs ∨ run.batchId = some batch.id ∧ run.state.isActive

theorem Materializing.queueItem {batch : Batch} (h : Materializing c batch c') {item : BatchItem}
    {runs : Table Run} (hf : run.Fresh) (hb : run.batchId = some batch.id)
    (hr : c'.runs.insert run = some runs) :
    Materializing c batch (Core.queueItem { c' with runs } item.id run.id) := by
  have hm {r} : r ∈ runs ↔ r ∈ c'.runs ∨ r = run := Table.mem_of_insert hr
  have fresh {run'} (hr' : run' ∈ c'.runs) : run'.id ≠ run.id :=
    Table.get?_eq_none.mp (Table.get?_key_of_insert hr) run' hr'
  constructor
  case items =>
    refine List.forall_mem_map.mpr fun i hi run' hr' he => ?_
    split at he
    case isTrue hc =>
      simp only [hc, if_true]
      obtain hr' | rfl := hm.mp hr'
      case inl => exact absurd (Option.some.inj he).symm (fresh hr')
      case inr => exact .inl <| by simp [hf.state, RunState.itemState]
    case isFalse hc =>
      simp only [hc]
      obtain hr' | rfl := hm.mp hr'
      case inl => exact h.items i hi run' hr' he
      case inr =>
        obtain ⟨run, hr, he⟩ := h.owned i hi run'.id he
        exact absurd he (fresh hr)
  case owned =>
    refine List.forall_mem_map.mpr fun i hi r hr' => ?_
    split at hr'
    case isTrue => exact ⟨run, hm.mpr <| .inr rfl, Option.some.inj hr'⟩
    case isFalse =>
      obtain ⟨run', hr', he⟩ := h.owned i hi r hr'
      exact ⟨run', hm.mpr <| .inl hr', he⟩
  case old => exact fun run' hr' => hm.mpr <| .inl <| h.old run' hr'
  case new =>
    intro run' hr'
    obtain hr' | rfl := hm.mp hr'
    case inl => exact h.new run' hr'
    case inr => exact .inr ⟨hb, by simp [hf.state, RunState.isActive, RunState.isTerminal]⟩

theorem Materializes.runs_mono {batch : Batch} {items : List BatchItem}
    (h : Materializes batch items c c') (hr : run ∈ c.runs) : run ∈ c'.runs := by
  induction h
  case nil => exact hr
  case cons hi _ ih => exact ih <| (Table.mem_of_insert hi).mpr <| .inl hr

theorem Materializes.hasActiveChild {batch : Batch} {items : List BatchItem}
    (h : Materializes batch items c c') (hn : items ≠ []) : c'.HasActiveChild batch.id := by
  cases h
  case nil => contradiction
  case cons run _ hf hb _ hi h =>
    refine ⟨run, h.runs_mono <| (Table.mem_of_insert hi).mpr <| .inr rfl, hb, ?_⟩
    simp [hf.state, RunState.isActive, RunState.isTerminal]

namespace Agrees

variable {batchId : Uuid} {op : Op} {entries : List LogEntry}

-- Only the columns that the agreement is about matter.
theorem congr (h : Agrees c) (hr : Table.Same (fun run => (run.id, run.batchId, run.state)) c.runs c'.runs)
    (hb : Table.Same (fun b => (b.id, b.finalizedAt, b.state)) c.batches c'.batches)
    (hi : c'.batchItems = c.batchItems) : Agrees c' := by
  constructor
  case items =>
    intro i hm run' hr' he
    have ⟨run, hm', he'⟩ := hr.exists_left hr'
    simp only [Prod.mk.injEq] at he'
    exact he'.right.right ▸ h.items i (hi ▸ hm) run hm' (he'.left ▸ he)
  case batches =>
    intro b' hm' hf hc
    have ⟨b, hm, he⟩ := hb.exists_left hm'
    simp only [Prod.mk.injEq] at he
    have hx : c'.HasActiveChild b.id ↔ c.HasActiveChild b.id := by
      constructor
      case mp =>
        rintro ⟨run', hr', hb', ha⟩
        have ⟨run, hm, he⟩ := hr.exists_left hr'
        simp only [Prod.mk.injEq] at he
        exact ⟨run, hm, he.right.left.trans hb', he.right.right ▸ ha⟩
      case mpr =>
        rintro ⟨run, hr', hb', ha⟩
        have ⟨run', hm, he⟩ := hr.exists_right hr'
        simp only [Prod.mk.injEq] at he
        exact ⟨run', hm, he.right.left.trans hb', he.right.right ▸ ha⟩
    rw [← he.left, hx, ← he.right.right]
    exact h.batches b hm (he.right.left ▸ hf) (he.right.right ▸ hc)

theorem of_attempts (h : Agrees c) {attempts : Table Attempt} : Agrees { c with attempts } :=
  ⟨h.items, h.batches⟩

theorem insert_run (h : Agrees c) (l : Linked c) {runs : Table Run} (hb : run.batchId = none)
    (hi : c.runs.insert run = some runs) : Agrees { c with runs } := by
  have hm {run'} : run' ∈ runs ↔ run' ∈ c.runs ∨ run' = run := Table.mem_of_insert hi
  constructor
  case items =>
    intro i hi' run' hr' he
    obtain hr' | rfl := hm.mp hr'
    case inl => exact h.items i hi' run' hr' he
    case inr =>
      obtain ⟨run, hr, he'⟩ := l.item i hi' run'.id he
      simp only [Run.ref, Prod.mk.injEq] at he'
      exact absurd he'.left <| Table.get?_eq_none.mp (Table.get?_key_of_insert hi) run hr
  case batches =>
    intro b hb' hf hc
    rw [h.batches b hb' hf hc]
    constructor
    case mp =>
      rintro ⟨run', hr, hx⟩
      exact ⟨run', hm.mpr <| .inl hr, hx⟩
    case mpr =>
      rintro ⟨run', hr, hx, ha⟩
      obtain hr | rfl := hm.mp hr
      case inl => exact ⟨run', hr, hx, ha⟩
      case inr => simp [hb] at hx

theorem cancelBatch (h : Agrees c) (l : Linked c) (hb : c.batches.get? batchId = some b)
    (ho : b.state.isOpen) : Agrees (c.cancelBatch batchId) := by
  constructor
  case items =>
    refine List.forall_mem_map.mpr fun i hi => List.forall_mem_map.mpr fun run hr he => ?_
    have he : i.runId = some run.id := by split at he <;> split at he <;> exact he
    have hx := h.items i hi run hr he
    obtain ⟨run', hr', he'⟩ := l.item i hi run.id he
    simp only [Run.ref, Prod.mk.injEq] at he'
    obtain rfl : run' = run := Table.key_injOn hr' hr he'.left
    by_cases hk : i.batchId = batchId
    case neg => simpa [hk, he'] using hx
    case pos =>
      -- The item is open if and only if its run is active.
      have ha : i.state.isOpen = run'.state.isActive := by
        rcases hx with hx | ⟨hx, hf⟩
        case inl => cases hs : run'.state <;> simp [hx, hs, RunState.itemState] <;> rfl
        case inr =>
          rw [hx, hf]
          rfl
      simp only [he', hk, ha, decide_true, Bool.true_and]
      split
      case isTrue => exact .inl rfl
      case isFalse => exact hx
  case batches =>
    refine List.forall_mem_map.mpr fun b' hb' => ?_
    by_cases hk : b'.id = batchId
    case pos =>
      obtain rfl : b' = b := Table.key_injOn hb' (Table.mem_of_get? hb) <|
        hk.trans (Table.key_of_get? hb).symm
      simp [hk, ho]
    case neg =>
      simp only [hk, decide_false, Bool.false_and, Bool.false_eq_true, if_false]
      intro hf hc
      rw [h.batches b' hb' hf hc]
      constructor
      case mp =>
        rintro ⟨run, hr, hx, ha⟩
        exact ⟨run, List.mem_map.mpr ⟨run, hr, by simp [hx, hk]⟩, hx, ha⟩
      case mpr =>
        rintro ⟨run', hr', hx, ha⟩
        obtain ⟨run, hr, he⟩ := List.mem_map.mp hr'
        split at he
        case isTrue => simp [← he, RunState.isActive, RunState.isTerminal] at ha
        case isFalse => exact ⟨run, hr, he ▸ hx, he ▸ ha⟩

theorem finalize (h : Agrees c) (l : Linked c) {batch : Batch} {items : List BatchItem} {c₁ : Core}
    {state : BatchState} {now : Time} (hb : c.batches.get? batch.id = some batch)
    (hs : batch.state = .collecting) (hn : (items.map BatchItem.id).Nodup)
    (hi : ∀ i, i ∈ items ↔ i ∈ c.batchItems ∧ i.batchId = batch.id ∧ i.state = .ready)
    (hm : Materializes batch items c c₁)
    (ht : items ≠ [] ∧ state = .running ∨ items = [] ∧ state.isCompleted) :
    Agrees (c₁.closeIngestion batch.id state now) := by
  have hp : Materializing c batch c₁ := by
    refine hm.preserves (fun c' item run runs hp _ _ _ hf hb _ hr => hp.queueItem hf hb hr) hn
      (fun i => (hi i).mp) ⟨h.items, fun i hi r hr => ?_, fun _ hr => hr, fun _ hr => .inl hr⟩
    obtain ⟨run, hr, he⟩ := l.item i hi r hr
    exact ⟨run, hr, congrArg Prod.fst he⟩
  refine ⟨hp.items, List.forall_mem_map.mpr fun b hm' => ?_⟩
  have hm' : b ∈ c.batches := hm.batches ▸ hm'
  by_cases hk : b.id = batch.id
  case pos =>
    obtain rfl : b = batch := Table.key_injOn hm' (Table.mem_of_get? hb) hk
    simp only [hs, decide_true, Bool.true_and, if_true]
    rintro - -
    rcases ht with ⟨ht, rfl⟩ | ⟨rfl, ht⟩
    case inl => exact iff_of_true rfl (hm.hasActiveChild ht)
    case inr =>
      -- Nothing was materialized, and a batch that collects has no runs yet.
      cases hm
      refine iff_of_false (fun hr => by simp [hr, BatchState.isCompleted] at ht) ?_
      rintro ⟨run, hr, hx, -⟩
      exact l.no_child hb hs hr hx
  case neg =>
    simp only [hk, decide_false, Bool.false_and, Bool.false_eq_true, if_false]
    intro hf hc
    rw [h.batches b hm' hf hc]
    constructor
    case mp =>
      rintro ⟨run, hr, hx⟩
      exact ⟨run, hp.old run hr, hx⟩
    case mpr =>
      rintro ⟨run, hr, hx, ha⟩
      obtain hr | ⟨hr, -⟩ := hp.new run hr
      case inl => exact ⟨run, hr, hx, ha⟩
      case inr => exact absurd (Option.some.inj <| hx.symm.trans hr) hk

-- A confirmed poisoned input fails its queued runs and marks their items together.
theorem poison (h : Agrees c) (l : Linked c) (poisoned : Uuid → Bool) : Agrees (c.poison poisoned) := by
  have old {run'} (hr : run' ∈ (c.poison poisoned).runs) (ha : run'.state.isActive) : run' ∈ c.runs := by
    obtain ⟨run, hr, he⟩ := List.mem_map.mp hr
    split at he
    case isTrue => simp [← he, RunState.isActive, RunState.isTerminal] at ha
    case isFalse => exact he ▸ hr
  constructor
  case items =>
    refine List.forall_mem_map.mpr fun i hi => List.forall_mem_map.mpr fun run hr he => ?_
    have he : i.runId = some run.id := by split at he <;> split at he <;> exact he
    have hx := h.items i hi run hr he
    cases hp : poisoned run.id
    case false => simpa [he, hp] using hx
    case true =>
      rcases hx with hx | ⟨hx, hf⟩
      case inl =>
        cases hs : run.state <;>
          simp [he, hp, hx, hs, RunState.itemState, BatchItemState.isPoisonable, BatchItemState.Reflects]
      case inr => simp [he, hx, hf, BatchItemState.isPoisonable, BatchItemState.Reflects]
  case batches =>
    refine List.forall_mem_map.mpr fun b hb => ?_
    split
    case isTrue =>
      intro hf hc
      by_cases ha : (c.failPoisoned poisoned).HasActiveChild b.id
      case pos =>
        have hall := mt all_terminal_iff.mp (not_not.mpr ha)
        refine iff_of_true ?_ ha
        obtain ⟨run, hr, hx, ha⟩ := ha
        have hr := (h.batches b hb hf fun hn => hc ?_).mpr ⟨run, old hr ha, hx, ha⟩
        case _ => simp [drained, hr, hall]
        case _ => simp [drained, hn]
      case neg =>
        refine iff_of_false (fun hr => ?_) ha
        have hall := all_terminal_iff.mpr ha
        simp only [drained, hall, Bool.and_true, decide_eq_true_eq] at hr
        split at hr <;> contradiction
    case isFalse hk =>
      intro hf hc
      rw [h.batches b hb hf hc]
      constructor
      case mpr =>
        rintro ⟨run, hr, hx, ha⟩
        exact ⟨run, old hr ha, hx, ha⟩
      case mp =>
        rintro ⟨run, hr, hx, ha⟩
        refine ⟨run, List.mem_map.mpr ⟨run, hr, if_neg fun hq => hk ?_⟩, hx, ha⟩
        -- A queued run whose input is poisoned has an item that is marked.
        obtain ⟨iid, hi⟩ := l.whole run hr b.id hx
        obtain ⟨item, hm, he⟩ := l.run run hr b.id iid hx hi
        simp only [BatchItem.ref, Prod.mk.injEq] at he
        simp only [Bool.and_eq_true, decide_eq_true_eq] at hq
        have hs : item.state = .queued := by
          simpa [BatchItemState.Reflects, hq, RunState.itemState] using h.items item hm run hr he.right.right
        have hh : item ∈ c.poisonedItems poisoned :=
          Table.mem_select.mpr ⟨hm, by simp [he, hq, hs, BatchItemState.isPoisonable]⟩
        simpa using ⟨item, hh, he.right.left⟩

theorem setRun_sync (h : Agrees c) (l : Linked c) {allows : RunState → Bool} {f : Run → Run} {hf}
    (hb : ∀ run, (f run).ref = run.ref) (hr : c.runs.get? r = some run)
    (hs : run.batchId.isSome → (if allows run.state then f run else run).state = st) :
    Agrees ((c.setRun r allows f hf).sync r st) := by
  have hk : run.id = r := Table.key_of_get? hr
  have hb' run : (f run).batchId = run.batchId := congrArg (·.2.1) (hb run)
  have hr' : (c.setRun r allows f hf).runs.get? r = some (if allows run.state then f run else run) := by
    simp [Core.setRun, hr, hk]
  refine (h.setRun l hb').sync (l.setRun hb) hr' fun hx => hs ?_
  split at hx
  case isTrue => exact hb' run ▸ hx
  case isFalse => exact hx

theorem concludes (h : Agrees c) (l : Linked c) {a : Attempt} {outcome} {p}
    (hc : Concludes c a outcome p c') : Agrees c' := by
  cases hc
  case late => exact h.of_attempts
  case applied run _ _ _ _ _ hr _ =>
    exact h.of_attempts.setRun_sync l.of_attempts (fun _ => rfl) (Table.key_of_get? hr ▸ hr) fun _ => rfl

-- The run of an open offer is running, or was cancelled and belongs to no batch.
theorem requeue (h : Agrees c) (l : Linked c) {f : Run → Run} {hf} {attempts : Table Attempt}
    (hb : ∀ run, (f run).ref = run.ref ∧ (f run).state = .queued) (hr : c.runs.get? r = some run)
    (hs : run.state = .running ∨ run.state = .cancelled) (hn : run.state = .cancelled → run.batchId = none) :
    Agrees ((Core.setRun { c with attempts } r (· = .running) f hf).sync r .queued) := by
  refine h.of_attempts.setRun_sync l.of_attempts (fun run => (hb run).left) hr fun hx => ?_
  rcases hs with hs | hs
  case inl => simp [hs, hb run]
  case inr => simp [hn hs] at hx

theorem step (h : Agrees c) (l : Linked c) (hs : c.Step op entries c')
    (ho : ∀ a ∈ c.attempts, a.state = .offered → ∃ run, c.runs.get? a.runId = some run ∧
      (run.state = .running ∨ run.state = .cancelled))
    (hn : c.requeuesCancelled op = false) : Agrees c' := by
  cases hs
  case unchanged => exact h
  case queueRun hb _ hi => exact h.insert_run l hb hi
  case openBatch batch batches hs hf hi =>
    refine ⟨h.items, fun b hb => ?_⟩
    obtain hb | rfl := (Table.mem_of_insert hi).mp hb
    case inl => exact h.batches b hb
    case inr => simp [hf]
  case ingest p f hf hp =>
    refine ⟨h.items, List.forall_mem_map.mpr fun b hb => ?_⟩
    split
    case isFalse => exact h.batches b hb
    case isTrue hb' =>
      obtain ⟨hi, he, _⟩ := hp b hb'
      simp [he, (l.staged b hb).not_finalized hi]
  case collect batchId batch batchItems f hf hs hb hc hi =>
    have hk : batch.id = batchId := Table.key_of_get? hb
    obtain ⟨h₁, _⟩ := hi.of_runs fun i hm hb' => l.runId_none (hk ▸ hb) hc hm (hb'.trans hk.symm)
    have hx : Agrees { c with batchItems } := by
      refine ⟨fun i hm run hr he => ?_, h.batches⟩
      obtain hm | hn := h₁ i hm
      case inl => exact h.items i hm run hr he
      case inr => simp [hn] at he
    refine hx.congr .refl (.of_update rfl fun b _ _ => ?_) rfl
    exact Prod.ext (hf b) <| Prod.ext (hs b).right (hs b).left
  case finalize hb hs hn hi hm ht => exact h.finalize l hb hs hn hi hm ht
  case cancelBatch hb ho => exact h.cancelBatch l hb ho
  case poison poisoned => exact h.poison l poisoned
  case accept hc =>
    subst hc
    exact h.of_attempts.congr (.of_update rfl fun _ _ _ => rfl) .refl rfl
  case renew | expire => exact h.of_attempts
  case finish hc | finishExpired hc => exact h.concludes l hc
  case offer hr hq _ _ _ _ =>
    exact h.of_attempts.setRun_sync l.of_attempts (fun _ => rfl) hr fun _ => by simp [hq]
  case cancelRun hr hs => exact h.setRun_sync l (fun _ => rfl) hr fun _ => by simp [hs]
  case retryRun hr hs => exact h.setRun_sync l (fun _ => rfl) hr fun _ => by simp [hs]
  case release id ha hs =>
    obtain ⟨run, hr, hx⟩ := ho _ (Table.mem_of_get? ha) hs
    refine h.requeue l (fun _ => ⟨rfl, rfl⟩) hr hx fun hc => ?_
    simpa [requeuesCancelled, isStaleOffer, ha, hs, hr, hc] using hn
  case reject id ha hs ht =>
    obtain ⟨run, hr, hx⟩ := ho _ (Table.mem_of_get? ha) hs
    refine h.requeue l (fun _ => ⟨rfl, rfl⟩) hr hx fun hc => ?_
    simpa [requeuesCancelled, isStaleOffer, ha, hs, ht, hr, hc] using hn

end Agrees

-- Passing `queued` on for a cancelled run makes its item wrong.
theorem not_agrees_requeue (l : Linked c) {f : Run → Run} {hf} {attempts : Table Attempt}
    (hr : c.runs.get? r = some run) (hc : run.state = .cancelled) (hb : run.batchId.isSome) :
    ¬Agrees ((Core.setRun { c with attempts } r (· = .running) f hf).sync r .queued) := by
  intro h
  have hk : run.id = r := Table.key_of_get? hr
  have hr' : (Core.setRun { c with attempts } r (· = .running) f hf).runs.get? r = some run := by
    simp [Core.setRun, hr, hc]
  obtain ⟨bid, hb⟩ := Option.isSome_iff_exists.mp hb
  obtain ⟨iid, hi⟩ := l.whole run (Table.mem_of_get? hr) bid hb
  obtain ⟨item, hm, he⟩ := l.run run (Table.mem_of_get? hr) bid iid hb hi
  simp only [BatchItem.ref, Prod.mk.injEq] at he
  simp only [Core.sync, hr', Option.bind_some, Run.link_eq_some.mpr ⟨hb, hi⟩] at h
  have hx := h.items { item with state := .queued }
    (List.mem_map.mpr ⟨item, hm, by simp [he, RunState.itemState]⟩) run (Table.mem_of_get? hr') he.right.right
  simp [hc, BatchItemState.Reflects, RunState.itemState] at hx

end Core

end Scheduler
