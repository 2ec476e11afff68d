import TaskScheduler.Ingestion.Chain

namespace Scheduler

instance : IsTrans BatchItem (·.itemIndex ≤ ·.itemIndex) where
  trans _ _ _ := Nat.le_trans

instance : Std.Total fun i j : BatchItem => i.itemIndex ≤ j.itemIndex where
  total _ _ := Nat.le_total ..

-- A run as `finalize_batch` creates it for an item.
structure Batch.Materialized (batch : Batch) (newId : Uuid → Uuid) (item : BatchItem) (run : Run) : Prop where
  id          : run.id = newId item.id
  state       : run.state = .queued
  scheduleId  : run.scheduleId = batch.scheduleId
  snapshot    : item.encryptedSnapshot = some run.encryptedSnapshot
  batchId     : run.batchId = some batch.id
  batchItemId : run.batchItemId = some item.id

-- Runs and items point at each other.
theorem Core.Paired.runId_iff {c : Core} (h : c.Paired) {item : BatchItem} {run : Run}
    (hi : item ∈ c.batchItems) (hr : run ∈ c.runs) {batchId : Uuid} (hb : run.batchId = some batchId) :
    item.runId = some run.id ↔ run.batchItemId = some item.id := by
  constructor
  case mp =>
    intro he
    obtain ⟨run', hr', hx⟩ := h.item item hi run.id he
    simp only [Run.ref, Prod.mk.injEq] at hx
    obtain rfl : run' = run := Table.key_injOn hr' hr hx.left
    exact hx.right.right
  case mpr =>
    intro he
    obtain ⟨item', hi', hx⟩ := h.run run hr batchId item.id hb he
    simp only [BatchItem.ref, Prod.mk.injEq] at hx
    obtain rfl : item' = item := Table.key_injOn hi' hi hx.left
    exact hx.right.right

namespace Store

variable {s s' s₁ : Store} {batch : Batch} {newId : Uuid → Uuid} {now : Time}

-- The loop of `finalize_batch`. Every turn reads at most a hundred items that are still ready and
-- counts the runs it creates; `none` tells that the fuel ran out.
def materializeLoop (batch : Batch) (newId : Uuid → Uuid) (now : Time) :
    Nat → Nat → Store → Option (Except StoreError (Store × Nat))
  | 0, _, _               => none
  | fuel + 1, runs, s =>
    match (s.readyItems batch.id).take 100 with
    | []         => some (.ok (s, runs))
    | item :: tl =>
      match materializeItems batch newId now s (item :: tl) with
      | .error e => some (.error e)
      | .ok s₁   => materializeLoop batch newId now fuel (runs + (item :: tl).length) s₁

-- `finalize_batch` with its loop, where `Store.finalizeBatch` goes through the ready items at once.
def finalizeBatchLoop (s : Store) (fuel : Nat) (batchId : Uuid) (leaseToken : String)
    (newId : Uuid → Uuid) (now : Time) : Option (Transaction FinalizeBatchOutcome) :=
  match s.batches.get? batchId with
  | none       => some <| .bail "batch not found"
  | some batch =>
    match batch.state with
    | .running | .succeeded | .completedWithErrors | .failed | .cancelled =>
      some <| .commit .alreadyFinalized s
    | .scheduled | .collecting =>
      if batch.state ≠ .collecting || !batch.ingestionComplete ||
        batch.leaseToken ≠ some leaseToken || !batch.leaseExpiresAt.any (now < ·) then
        some <| .bail "batch is not ready for finalization or collection lease was lost"
      else
        match materializeLoop batch newId now fuel 0 s with
        | none                  => none
        | some (.error e)       => some <| .error e
        | some (.ok (s₁, runs)) =>
          some <| .commit .finalized <|
            (s₁.closeIngestion batch (runs ≠ 0) now).appendAudit (.batch batchId) .batchFinalized

theorem materializeItem_rows {item : BatchItem} {runId : Uuid}
    (h : s.materializeItem batch item runId now = .ok s') :
    (∃ run : Run, batch.Materialized (fun _ => runId) item run ∧ s'.runs.rows = s.runs.rows ++ [run]) ∧
    s'.batchItems.rows = s.batchItems.rows.map fun i =>
      if i.id = item.id && i.state = .ready then { i with state := .queued, runId := some runId } else i := by
  simp only [materializeItem] at h
  split at h
  case h_2 => contradiction
  case h_1 hs _ _ _ =>
    split at h
    case h_1 => contradiction
    case h_2 hr =>
      cases h
      obtain ⟨runs, hi, rfl⟩ := insertRun_eq hr
      exact ⟨⟨_, ⟨rfl, rfl, rfl, hs, rfl, rfl⟩, Table.rows_of_insert hi⟩, rfl⟩

theorem mem_readyItems {batchId : Uuid} {i : BatchItem} :
    i ∈ s.readyItems batchId ↔ i ∈ s.batchItems ∧ i.batchId = batchId ∧ i.state = .ready := by
  simp [readyItems, itemsInOrder, List.mem_insertionSort]

theorem readyItems_nodup {batchId : Uuid} : ((s.readyItems batchId).map BatchItem.id).Nodup :=
  (List.perm_insertionSort _ _).map _ |>.nodup_iff.mpr Table.select_nodup

-- A materialized item is not ready any more; the other ready items stay in order.
theorem materializeItem_readyItems {item : BatchItem} {tl : List BatchItem} {runId : Uuid}
    (hr : s.readyItems batch.id = item :: tl) (h : s.materializeItem batch item runId now = .ok s') :
    s'.readyItems batch.id = tl := by
  have ⟨_, hi⟩ := materializeItem_rows h
  have hx : item ∈ s.readyItems batch.id := hr ▸ List.mem_cons_self
  have hn : ((s.readyItems batch.id).map BatchItem.id).Nodup := readyItems_nodup
  rw [hr] at hn
  have ⟨hn, _⟩ := List.nodup_cons.mp hn
  rw [readyItems, itemsInOrder, Table.select_of_removal hi (by simp), ← Table.filter_insertionSort]
  have hr' : List.insertionSort _ _ = item :: tl := hr
  rw [hr', List.filter_cons_of_neg (by simp [mem_readyItems.mp hx])]
  refine List.filter_eq_self.mpr fun j hj => ?_
  have hk : j.id ≠ item.id := fun hk => hn <| List.mem_map.mpr ⟨j, hj, hk⟩
  simp [hk]

theorem materializeItems_readyItems {items tl : List BatchItem}
    (hr : s.readyItems batch.id = items ++ tl) (h : materializeItems batch newId now s items = .ok s') :
    s'.readyItems batch.id = tl := by
  induction items generalizing s
  case nil =>
    cases h
    exact hr
  case cons item items hi =>
    simp only [materializeItems] at h
    split at h
    case h_1 => contradiction
    case h_2 hm => exact hi (materializeItem_readyItems hr hm) h

theorem materializeItems_append {items tl : List BatchItem} :
    materializeItems batch newId now s (items ++ tl) =
      match materializeItems batch newId now s items with
      | .error e => .error e
      | .ok s₁   => materializeItems batch newId now s₁ tl := by
  induction items generalizing s
  case nil => rfl
  case cons item items hi =>
    simp only [List.cons_append, materializeItems]
    cases s.materializeItem batch item (newId item.id) now
    case error => rfl
    case ok => exact hi

-- The loop ends, and together its turns run through all items that were ready.
theorem materializeLoop_eq {fuel runs : Nat} (hf : (s.readyItems batch.id).length < fuel) :
    materializeLoop batch newId now fuel runs s =
      some ((materializeItems batch newId now s (s.readyItems batch.id)).map
        (·, runs + (s.readyItems batch.id).length)) := by
  induction fuel generalizing s runs
  case zero => contradiction
  case succ fuel hi =>
    have hs := (s.readyItems batch.id).take_append_drop 100
    unfold materializeLoop
    split
    case h_1 he =>
      have hn : s.readyItems batch.id = [] := by simpa using he
      simp [hn, materializeItems, Except.map]
    case h_2 item tl he =>
      rw [he] at hs
      have hl := congrArg List.length hs
      rw [List.length_append] at hl
      rw [← hs, materializeItems_append]
      cases hm : materializeItems batch newId now s (item :: tl)
      case error => rfl
      case ok s₁ =>
        -- The next turn finds what this one has left.
        have hr := materializeItems_readyItems hs.symm hm
        have hf : (s₁.readyItems batch.id).length < fuel := by
          rw [hr]
          rw [List.length_cons] at hl
          omega
        dsimp only
        rw [hi hf, hr, List.length_append, Nat.add_assoc]

theorem finalizeBatchLoop_eq {batchId : Uuid} {token : String} {fuel : Nat}
    (hf : (s.readyItems batchId).length < fuel) :
    s.finalizeBatchLoop fuel batchId token newId now = some (s.finalizeBatch batchId token newId now) := by
  simp only [finalizeBatchLoop, finalizeBatch]
  cases hb : s.batches.get? batchId
  case none => rfl
  case some batch =>
    obtain rfl : batch.id = batchId := Table.key_of_get? hb
    dsimp only
    rw [materializeLoop_eq hf]
    generalize batch.state = st
    cases st
    case scheduled | collecting =>
      dsimp only
      split
      case isTrue => rfl
      case isFalse =>
        cases materializeItems batch newId now s (s.readyItems batch.id)
        case error => rfl
        case ok => simp [Except.map]
    all_goals rfl

-- What the loop leaves behind: one run for each item, and the items marked with their runs.
theorem materializeItems_rows {items : List BatchItem}
    (h : materializeItems batch newId now s items = .ok s') :
    (∃ new, List.Forall₂ (batch.Materialized newId) items new ∧ s'.runs.rows = s.runs.rows ++ new) ∧
    s'.batchItems.rows = s.batchItems.rows.map fun i =>
      if i.id ∈ items.map BatchItem.id ∧ i.state = .ready then
        { i with state := .queued, runId := some (newId i.id) }
      else i := by
  induction items generalizing s
  case nil =>
    cases h
    exact ⟨⟨[], .nil, by simp⟩, by simp⟩
  case cons item items hi =>
    simp only [materializeItems] at h
    split at h
    case h_1 => contradiction
    case h_2 s₁ hm =>
      obtain ⟨⟨run, hr, hr'⟩, hb⟩ := materializeItem_rows hm
      obtain ⟨⟨new, hn, hn'⟩, hb'⟩ := hi h
      have hr : batch.Materialized newId item run := ⟨hr.id, hr.state, hr.scheduleId, hr.snapshot, hr.batchId, hr.batchItemId⟩
      refine ⟨⟨run :: new, .cons hr hn, by simp [hn', hr']⟩, ?_⟩
      rw [hb', hb, List.map_map]
      refine List.map_congr_left fun i _ => ?_
      simp only [Function.comp_apply, List.map_cons, List.mem_cons]
      by_cases hs : i.state = .ready <;> by_cases hk : i.id = item.id <;> simp [hs, hk]

-- The batch does not collect any more.
def Ended (s : Store) (batchId : Uuid) : Prop :=
  ∃ b ∈ s.batches, b.id = batchId ∧ b.state.isIngesting = false

theorem Ended.exec {batchId : Uuid} (h : s.Ended batchId) (l : s.core.Linked) (op : Op) :
    (s.exec op).Ended batchId := by
  obtain ⟨b, hb, rfl, hs⟩ := h
  have ⟨_, b', hb', he, hs'⟩ := (exec_ingests l op).closed hb (.inr hs)
  exact ⟨b', hb', congrArg Progress.id he, hs' hs⟩

theorem Ended.run {batchId : Uuid} (h : s.Ended batchId) (l : s.core.Linked) (ops : List Op) :
    (database.run s ops).Ended batchId := by
  induction ops generalizing s
  case nil => exact h
  case cons op ops hi => exact hi (h.exec l op) (linked_exec l op)

-- Finalizing such a batch again does nothing, whoever calls it.
theorem Ended.finalizeBatch {batchId : Uuid} (h : s.Ended batchId) (token : String) :
    s.exec (.finalizeBatch batchId token newId now) = s := by
  obtain ⟨b, hb, rfl, hs⟩ := h
  have hg : s.batches.get? b.id = some b := Table.get?_of_mem hb
  simp only [Store.exec, Store.finalizeBatch, hg]
  cases hx : b.state
  case scheduled | collecting => simp [hx, BatchState.isIngesting] at hs
  all_goals rfl

-- A successful finalization has found a collecting batch and materialized its ready items.
theorem finalizeBatch_finalized {batchId : Uuid} {token : String}
    (h : s.finalizeBatch batchId token newId now = .ok (.finalized, s')) :
    ∃ batch s₁, s.batches.get? batchId = some batch ∧ batch.state = .collecting ∧
      materializeItems batch newId now s (s.readyItems batchId) = .ok s₁ ∧
      s' = (s₁.closeIngestion batch (s.readyItems batchId ≠ []) now).appendAudit (.batch batchId)
        .batchFinalized := by
  simp only [Store.finalizeBatch] at h
  repeat' split at h
  all_goals cases h
  all_goals
    case _ batch hb _ _ hc _ s₁ hm => exact ⟨batch, s₁, hb, by simp_all, hm, rfl⟩

-- What one finalization amounts to.
structure Finalized (s s' : Store) (batchId : Uuid) (newId : Uuid → Uuid) : Prop where
  fresh   : ∀ run ∈ s.runs, run.batchId ≠ some batchId
  created : ∃ batch new, s.batches.get? batchId = some batch ∧
    List.Forall₂ (batch.Materialized newId) (s.readyItems batchId) new ∧ s'.runs.rows = s.runs.rows ++ new
  items   : s'.batchItems.rows = s.batchItems.rows.map fun i =>
    if i.batchId = batchId ∧ i.state = .ready then
      { i with state := .queued, runId := some (newId i.id) }
    else i
  linked  : ∀ item ∈ s'.batchItems, ∀ run ∈ s'.runs, run.batchId = some batchId →
    (item.runId = some run.id ↔ run.batchItemId = some item.id)

theorem Reachable.finalized (h : s.Reachable) {batchId : Uuid} {token : String}
    (hf : s.finalizeBatch batchId token newId now = .ok (.finalized, s')) :
    s.Finalized s' batchId newId := by
  have he : s.exec (.finalizeBatch batchId token newId now) = s' := by
    rw [Store.exec, hf, Transaction.persisted_ok]
  have l : s'.core.Linked := he ▸ linked_exec h.linked _
  obtain ⟨batch, s₁, hb, hs, hm, hc⟩ := finalizeBatch_finalized hf
  obtain rfl : batch.id = batchId := Table.key_of_get? hb
  obtain ⟨⟨new, hn, hr⟩, hi⟩ := materializeItems_rows hm
  constructor
  case fresh => exact fun run hr => h.linked.no_child hb hs hr
  case created => exact ⟨batch, new, hb, hn, hc ▸ hr⟩
  case items =>
    have hx : s'.batchItems = s₁.batchItems := hc ▸ rfl
    rw [hx, hi]
    refine List.map_congr_left fun i hi => ?_
    have hq : i.id ∈ (s.readyItems batch.id).map BatchItem.id ∧ i.state = .ready ↔
        i.batchId = batch.id ∧ i.state = .ready := by
      refine and_congr_left fun hs => ⟨fun hm => ?_, fun hk => ?_⟩
      · obtain ⟨j, hj, hk⟩ := List.mem_map.mp hm
        obtain ⟨hj, hb, _⟩ := mem_readyItems.mp hj
        exact Table.key_injOn hj hi hk ▸ hb
      · exact List.mem_map.mpr ⟨i, mem_readyItems.mpr ⟨hi, hk, hs⟩, rfl⟩
    simp only [hq]
  case linked => exact fun item hi run hr hb => l.toPaired.runId_iff hi hr hb

theorem Ended.of_finalized {batchId : Uuid} {token : String}
    (hf : s.finalizeBatch batchId token newId now = .ok (.finalized, s')) : s'.Ended batchId := by
  obtain ⟨batch, s₁, hb, hs, hm, rfl⟩ := finalizeBatch_finalized hf
  obtain rfl : batch.id = batchId := Table.key_of_get? hb
  obtain ⟨_, _, _, rfl⟩ := materializeItems_eq hm
  refine ⟨_, List.mem_map.mpr ⟨batch, Table.mem_of_get? hb, if_pos <| by simp [hs]⟩, rfl, ?_⟩
  dsimp only
  repeat' split
  all_goals rfl

-- A batch has no runs before it is finalized. Its finalization ends and creates one run for each ready
-- item and nothing else, and it is the last one, whatever happens afterwards.
theorem finalization_exactly_once (h : s.Reachable) :
    (∀ b ∈ s.batches, b.finalizedAt = none → ∀ run ∈ s.runs, run.batchId ≠ some b.id) ∧
    (∀ batchId token newId now, ∃ n, ∀ fuel ≥ n, s.finalizeBatchLoop fuel batchId token newId now =
      some (s.finalizeBatch batchId token newId now)) ∧
    ∀ batchId token newId now s', s.finalizeBatch batchId token newId now = .ok (.finalized, s') →
      s.Finalized s' batchId newId ∧
      ∀ ops token' newId' now', (database.run s' ops).exec (.finalizeBatch batchId token' newId' now') =
        database.run s' ops := by
  refine ⟨fun b hb hn run hr he => ?_, fun batchId token newId now => ?_, ?_⟩
  case refine_1 =>
    have ⟨b', hb', hk, hf⟩ := h.linked.batch run hr b.id he
    obtain rfl : b' = b := Table.key_injOn hb' hb hk
    simp [hn] at hf
  case refine_2 =>
    exact ⟨(s.readyItems batchId).length + 1, fun fuel hf => finalizeBatchLoop_eq <| by omega⟩
  case refine_3 =>
    intro batchId token newId now s' hf
    have he : s.exec (.finalizeBatch batchId token newId now) = s' := by
      rw [Store.exec, hf, Transaction.persisted_ok]
    refine ⟨h.finalized hf, fun ops token' newId' now' => ?_⟩
    exact (Ended.of_finalized hf).run (he ▸ linked_exec h.linked _) ops |>.finalizeBatch token'

open Sample in
theorem finalization_exactly_once_takenOver :
    ∃ s', (database.run .empty takenOver).finalizeBatch 100 "takeover" (· + 100) 100000 =
        .ok (.finalized, s') ∧
      s'.runs.rows.map (·.id) = [201, 202] ∧
      (database.run .empty takenOver).Finalized s' 100 (· + 100) := by
  have hf : ∃ s', (database.run .empty takenOver).finalizeBatch 100 "takeover" (· + 100) 100000 =
      .ok (.finalized, s') ∧ s'.runs.rows.map (·.id) = [201, 202] := ⟨_, rfl, by decide⟩
  have ⟨s', hf, hr⟩ := hf
  have hx := (finalization_exactly_once <| Reachable.run .refl takenOver).right.right
  exact ⟨s', hf, hr, (hx 100 "takeover" (· + 100) 100000 s' hf).left⟩

end Store

end Scheduler
