import TaskScheduler.Batches.Completion
import TaskScheduler.Coordinator.Batches
import TaskScheduler.Ingestion.Counters

namespace Scheduler

theorem countP_eq_sum {α : Type} {p : α → Bool} {l : List α} :
    l.countP p = (l.map fun a => (p a).toNat).sum := by
  induction l
  case nil => rfl
  case cons a l hi =>
    rw [List.countP_cons, hi, List.map_cons, List.sum_cons, Nat.add_comm]
    cases p a <;> rfl

namespace ItemClass

-- The groups of items that are kept from running.
def isQuarantine : ItemClass → Bool
  | invalid | poisoned | held => true
  | any | ready               => false

variable {k : ItemClass}

theorem has_itemState (h : k.isQuarantine) (st : RunState) : k.has st.itemState = false := by
  cases k <;> cases st <;> first | rfl | contradiction

theorem has_of_isOpen {st : BatchItemState} (h : k.isQuarantine) (ho : st.isOpen) :
    k.has st = false := by
  cases k <;> cases st <;> first | rfl | contradiction

theorem has_ready (h : k.isQuarantine) : k.has .ready = false := by
  cases k <;> first | rfl | contradiction

end ItemClass

-- Whether an item counts as one of the group in the batch.
def BatchItem.weight (k : ItemClass) (batchId : Uuid) (i : BatchItem) : Nat :=
  (decide (i.batchId = batchId) && k.has i.state).toNat

namespace Core

def classCount (c : Core) (k : ItemClass) (batchId : Uuid) : Nat :=
  (c.itemsOf batchId).countP (k.has ·.state)

-- The counters of finalized batches agree with their items.
def Quarantines (c : Core) (k : ItemClass) : Prop :=
  ∀ b ∈ c.batches, b.finalizedAt.isSome → b.countOf k = c.classCount k b.id

-- A failed run is retried whose item is poisoned.
def unpoisons (c : Core) : Op → Bool
  | .retryRun runId _ => (c.runs.get? runId).any (·.state = .failed) &&
      c.batchItems.rows.any fun i => i.runId = some runId && i.state = .poisoned
  | _ => false

variable {c c' : Core} {k : ItemClass} {r batchId : Uuid} {st : RunState} {run : Run} {x : BatchItemState}

theorem classCount_eq : c.classCount k batchId = (c.batchItems.rows.map (·.weight k batchId)).sum := by
  rw [classCount, itemsOf, Table.select, List.countP_filter, countP_eq_sum]
  simp only [BatchItem.weight, Bool.and_comm]

theorem classCount_of_same (h : Table.Same (·.weight k batchId) c.batchItems c'.batchItems) :
    c'.classCount k batchId = c.classCount k batchId := by
  rw [classCount_eq, classCount_eq]
  exact congrArg List.sum h

-- An update that moves items between groups other than `k`.
theorem classCount_of_update {p : BatchItem → Bool} {f : BatchItem → BatchItem}
    (hc : c'.batchItems.rows = c.batchItems.rows.map fun i => if p i then f i else i)
    (hf : ∀ i ∈ c.batchItems, p i → k.has i.state = false ∧ k.has (f i).state = false) :
    c'.classCount k batchId = c.classCount k batchId :=
  classCount_of_same <| .of_update hc fun i hi hp => by simp [BatchItem.weight, hf i hi hp]

-- The item of a run that did not fail is in no group.
theorem Tracks.not_has (h : c.Tracks x run) (hk : k.isQuarantine) (hx : k = .poisoned → x ≠ .poisoned) :
    k.has x = false := by
  rcases h with (h | ⟨h, -⟩) | ⟨-, -, h | h⟩
  case inl.inl => exact h ▸ ItemClass.has_itemState hk run.state
  case inr.inl => exact h ▸ ItemClass.has_itemState hk .queued
  case inl.inr | inr.inr =>
    subst h
    cases k <;> simp_all [ItemClass.has, ItemClass.isQuarantine]

theorem sync_items (hr : c.runs.get? r = some run) :
    (c.sync r st).batchItems.rows = c.batchItems.rows.map fun i =>
      if decide (run.link = some (i.batchId, i.id)) then { i with state := st.itemState } else i := by
  simp only [sync, hr, Option.bind_some]
  cases hl : run.link
  case none => simp
  case some p =>
    refine List.map_congr_left fun i _ => ?_
    obtain ⟨bid, iid⟩ := p
    simp only [Option.some.injEq, Prod.mk.injEq, @eq_comm _ bid, @eq_comm _ iid, Bool.decide_and, Bool.and_comm]

-- The item that a run passes its state on to is the one that it was made from.
theorem Linked.runId_of_link (l : Linked c) (hr : run ∈ c.runs) {i : BatchItem} (hi : i ∈ c.batchItems)
    (h : run.link = some (i.batchId, i.id)) : i.runId = some run.id := by
  have ⟨hb, hj⟩ := Run.link_eq_some.mp h
  have ⟨i', hm, he⟩ := l.run run hr i.batchId i.id hb hj
  simp only [BatchItem.ref, Prod.mk.injEq] at he
  obtain rfl : i' = i := Table.key_injOn hm hi he.left
  exact he.right.right

-- The item of the run leaves its group.
theorem classCount_sync_lt (hk : k.isQuarantine) (hr : c.runs.get? r = some run) {i : BatchItem}
    (hi : i ∈ c.batchItems) (hl : run.link = some (i.batchId, i.id)) (hx : k.has i.state) :
    (c.sync r st).classCount k i.batchId < c.classCount k i.batchId := by
  have hs : ((c.sync r st).batchItems.rows.map (·.weight k i.batchId)).sum +
      ((c.batchItems.select fun j => run.link = some (j.batchId, j.id)).map (·.weight k i.batchId)).sum =
      (c.batchItems.rows.map (·.weight k i.batchId)).sum + _ :=
    Table.sum_update (e := fun _ => 0) (sync_items hr) fun j _ _ => by
      simp [BatchItem.weight, ItemClass.has_itemState hk st]
  have hm : 1 ∈ (c.batchItems.select fun j => run.link = some (j.batchId, j.id)).map (·.weight k i.batchId) :=
    List.mem_map.mpr ⟨i, Table.mem_select.mpr ⟨hi, decide_eq_true hl⟩, by simp [BatchItem.weight, hx]⟩
  have hp := List.le_sum_of_mem hm
  rw [classCount_eq, classCount_eq]
  simp only [List.map_const', List.sum_replicate, smul_zero, add_zero] at hs
  omega

namespace Quarantines

variable {op : Op} {entries : List LogEntry} {batch : Batch}

theorem of_same (h : c.Quarantines k)
    (hb : Table.Same (fun b => (b.id, b.finalizedAt.isSome, b.countOf k)) c.batches c'.batches)
    (hi : ∀ id, c'.classCount k id = c.classCount k id) : c'.Quarantines k := by
  intro b' hb' hf
  have ⟨b, hm, he⟩ := hb.exists_left hb'
  simp only [Prod.mk.injEq] at he
  rw [hi, ← he.left, ← he.right.right]
  exact h b hm (he.right.left ▸ hf)

theorem sync (h : c.Quarantines k) (hk : k.isQuarantine) (l : Linked c)
    (hx : ∀ i ∈ c.batchItems, i.runId = some r → k.has i.state = false) : Quarantines (c.sync r st) k := by
  cases hr : c.runs.get? r
  case none => simpa [Core.sync, hr] using h
  case some run =>
    have hm : run ∈ c.runs := Table.mem_of_get? hr
    have hi : run.id = r := Table.key_of_get? hr
    refine h.of_same (.of_update (sync_batches hr <| l.whole run hm) fun _ _ _ => rfl) fun id => ?_
    refine classCount_of_update (sync_items hr) fun i hi' hp => ?_
    have he := l.runId_of_link hm hi' (of_decide_eq_true hp)
    exact ⟨hx i hi' (hi ▸ he), ItemClass.has_itemState hk st⟩

theorem finalize (h : c.Quarantines k) (hk : k.isQuarantine) {items : List BatchItem} {c₁ : Core}
    {state : BatchState} {now : Time} (hb : c.batches.get? batch.id = some batch)
    (hn : (items.map BatchItem.id).Nodup)
    (hi : ∀ i ∈ items, i ∈ c.batchItems ∧ i.batchId = batch.id ∧ i.state = .ready)
    (hm : Materializes batch items c c₁) (ht : batch.countOf k = c.classCount k batch.id) :
    Quarantines (c₁.closeIngestion batch.id state now) k := by
  have hx id : c₁.classCount k id = c.classCount k id := by
    refine hm.preserves (P := fun c' => c'.classCount k id = c.classCount k id) ?_ hn hi rfl
    intro c' item run runs he hm hb hs _ _ _ _
    refine .trans (classCount_of_update rfl fun i _ hp => ?_) he
    simp only [Bool.and_eq_true, decide_eq_true_eq] at hp
    exact ⟨hp.right ▸ ItemClass.has_ready hk, ItemClass.has_itemState hk .queued⟩
  refine List.forall_mem_map.mpr fun b hb' => ?_
  have hb' : b ∈ c.batches := hm.batches ▸ hb'
  split
  case isTrue hp =>
    simp only [Bool.and_eq_true, decide_eq_true_eq] at hp
    obtain rfl : b = batch := Table.key_injOn hb' (Table.mem_of_get? hb) hp.left
    exact fun _ => (hx b.id).symm ▸ ht
  case isFalse => exact fun hf => (hx b.id).symm ▸ h b hb' hf

theorem poison (h : c.Quarantines k) (hk : k.isQuarantine) (l : Linked c) (t : c.Tracked)
    {poisoned : Uuid → Bool} : Quarantines (c.poison poisoned) k := by
  -- Items that have a run are in no group before they are poisoned.
  have hn (i) (hi : i ∈ c.batchItems) (hp : i.runId.any poisoned && i.state.isPoisonable) :
      k.has i.state = false := by
    simp only [Bool.and_eq_true, Option.any_eq_true] at hp
    obtain ⟨⟨r, hr, -⟩, hs⟩ := hp
    have ⟨run, hm, he⟩ := l.item i hi r hr
    have hi : run.id = r := congrArg Prod.fst he
    rcases (t i ‹_› run hm (hi ▸ hr)).of_poisonable hs with ⟨-, hx⟩ | ⟨-, hx⟩ | ⟨-, -, hx⟩
    case inl | inr.inr => exact hx ▸ ItemClass.has_itemState hk .queued
    case inr.inl => exact hx ▸ ItemClass.has_itemState hk .failed
  by_cases he : k = .poisoned
  case neg =>
    refine h.of_same (.of_update rfl fun b _ _ => ?_) fun id => classCount_of_update rfl fun i hi hp => ?_
    · cases k <;> first | rfl | contradiction
    · refine ⟨hn i hi hp, ?_⟩
      cases k <;> first | rfl | contradiction
  case pos =>
    subst he
    have hw id : (c.poison poisoned).classCount .poisoned id = c.classCount .poisoned id +
        (c.poisonedItems poisoned).countP (·.batchId = id) := by
      rw [classCount_eq, classCount_eq, countP_eq_sum]
      refine Table.sum_update_add rfl fun i hi hp => ?_
      have hx : ItemClass.poisoned.has .poisoned = true := rfl
      simp only [BatchItem.weight, hn i hi hp, hx, Bool.and_true, Bool.and_false, Bool.toNat_false, Nat.zero_add]
    refine List.forall_mem_map.mpr fun b hb => ?_
    split
    case isTrue hp =>
      intro hf
      have hx : b.poisonedItemCount = _ := h b hb hf
      simp only [Batch.countOf, hw, hx, Nat.cast_add]
    case isFalse hp =>
      intro hf
      have hz : (c.poisonedItems poisoned).countP (·.batchId = b.id) = 0 := by
        refine List.countP_eq_zero.mpr fun i hi hx => hp ?_
        exact decide_eq_true <| List.mem_dedup.mpr <| List.mem_map.mpr ⟨i, hi, of_decide_eq_true hx⟩
      rw [hw, hz]
      exact h b hb hf

theorem step (h : c.Quarantines k) (hk : k.isQuarantine) (l : Linked c) (t : c.Tracked) (o : Offers c)
    (ht : ∀ b ∈ c.batches, b.state = .collecting → b.countOf k = c.classCount k b.id)
    (ha : ∀ a ∈ c.attempts, op.concludes a → ∀ run, c.runs.get? a.runId = some run →
      run.state ≠ .cancelled → run.state.isActive)
    (hn : k = .poisoned → c.unpoisons op = false) (hs : c.Step op entries c') : c'.Quarantines k := by
  have active {r : Uuid} {run : Run} (hr : c.runs.get? r = some run) (hs : run.state.isActive)
      (i) (hi : i ∈ c.batchItems) (he : i.runId = some r) : k.has i.state = false := by
    obtain rfl : run.id = r := Table.key_of_get? hr
    rw [(t i hi run (Table.mem_of_get? hr) he).of_active hs]
    exact ItemClass.has_itemState hk _
  cases hs
  case unchanged => exact h
  case queueRun hb _ hi => exact h
  case openBatch batch batches hs hf hi =>
    intro b hb hf'
    obtain hb | rfl := (Table.mem_of_insert hi).mp hb
    case inl => exact h b hb hf'
    case inr => simp [hf] at hf'
  case ingest p f hf hp =>
    refine List.forall_mem_map.mpr fun b hb => ?_
    split
    case isTrue hx =>
      obtain ⟨hi, he, _⟩ := hp b hx
      simp [he, (l.staged b hb).not_finalized hi]
    case isFalse => exact h b hb
  case collect batchId batch batchItems f hf hx hb hc hi =>
    have hk' : batch.id = batchId := Table.key_of_get? hb
    refine List.forall_mem_map.mpr fun b hm => ?_
    by_cases hb' : b.id = batchId
    case pos =>
      obtain rfl : b = batch := Table.key_injOn hm (Table.mem_of_get? hb) (hb'.trans hk'.symm)
      have hn := (l.staged b hm).not_finalized (by simp [hc, BatchState.isIngesting])
      simp [hb', hx, hn]
    case neg =>
      simp only [hb', decide_false, Bool.false_eq_true, if_false]
      intro hf
      rw [h b hm hf, classCount, itemsOf, ← Store.Collects.select_ne hi hb']
      rfl
  case finalize hq hb hs hn hi hm _ =>
    exact h.finalize hk hb hn (fun i => (hi i).mp) hm <| ht _ (Table.mem_of_get? hb) hs
  case cancelBatch batchId batch _ hb ho =>
    refine h.of_same (.of_update rfl fun _ _ _ => rfl) fun id => classCount_of_update rfl fun i _ hp => ?_
    simp only [Bool.and_eq_true, decide_eq_true_eq] at hp
    exact ⟨ItemClass.has_of_isOpen hk hp.right, ItemClass.has_itemState hk .cancelled⟩
  case poison => exact h.poison hk l t
  case accept hc => exact hc ▸ h
  case renew | expire => exact h
  case finish hc | finishExpired hc =>
    cases hc
    case late => exact h
    case applied run _ _ _ hm hp hr hs =>
      have hk' : run.id = _ := Table.key_of_get? hr
      have ha' := ha _ (Table.mem_of_get? hm) ⟨rfl, hp⟩ run hr hs
      exact sync h hk (l.of_attempts.setRun fun _ => rfl) (active (hk' ▸ hr) ha')
  case offer hr hq _ _ _ _ =>
    exact sync h hk (l.of_attempts.setRun fun _ => rfl) (active hr <| by rw [hq]; rfl)
  case cancelRun hr hs => exact sync h hk (l.setRun fun _ => rfl) (active hr hs)
  case retryRun runId run _ hr hs =>
    obtain rfl : run.id = runId := Table.key_of_get? hr
    refine sync h hk (l.setRun fun _ => rfl) fun i hi he => ?_
    refine (t i hi run (Table.mem_of_get? hr) he).not_has hk fun hp hx => ?_
    have hn := hn hp
    simp only [unpoisons, hr, Option.any_some, hs, decide_true, Bool.true_and, List.any_eq_false] at hn
    exact hn i hi <| by simp [he, hx]
  case release a id ho hs | reject a _ _ _ _ id ho hs _ =>
    obtain ⟨run, hr, hx⟩ := o.run a (Table.mem_of_get? ho) hs
    have hk' : run.id = a.runId := Table.key_of_get? hr
    refine sync h hk (l.of_attempts.setRun fun _ => rfl) fun i hi he => ?_
    have he' := (t i hi run (Table.mem_of_get? hr) (hk' ▸ he)).of_offered (Table.mem_of_get? ho) hk'.symm hs
    rcases he' with he' | ⟨-, he'⟩
    case inl => exact he' ▸ ItemClass.has_itemState hk _
    case inr => simp [he'] at hx

-- An item that leaves its group because of its run does not leave the counter.
theorem not_sync (h : c.Quarantines k) (hk : k.isQuarantine) (l : Linked c) {i : BatchItem}
    (hi : i ∈ c.batchItems) (hr : i.runId = some r) (hx : k.has i.state) : ¬(c.sync r st).Quarantines k := by
  intro h'
  obtain ⟨run, hm, he⟩ := l.item i hi r hr
  simp only [Run.ref, Prod.mk.injEq] at he
  obtain ⟨rfl, hb, hj⟩ := he
  have hr : c.runs.get? run.id = some run := Table.get?_of_mem hm
  obtain ⟨b, hb', hi', hf⟩ := l.batch run hm i.batchId hb
  have hs : Table.Same (fun b => (b.id, b.finalizedAt.isSome, b.countOf k)) c.batches
      (c.sync run.id st).batches :=
    .of_update (sync_batches hr <| l.whole run hm) fun _ _ _ => rfl
  obtain ⟨b', hm', he⟩ := hs.exists_right hb'
  simp only [Prod.mk.injEq] at he
  have hn := h' b' hm' (he.right.left ▸ hf)
  rw [he.right.right, he.left, h b hb' hf, hi', Nat.cast_inj] at hn
  exact (classCount_sync_lt hk hr hi (Run.link_eq_some.mpr ⟨hb, hj⟩) hx).ne hn.symm

theorem not_retryRun (h : c.Quarantines .poisoned) (l : Linked c) {now : Time}
    (hs : c.Step (.retryRun r now) [.retried r] c') {i : BatchItem} (hi : i ∈ c.batchItems)
    (hr : i.runId = some r) (hp : i.state = .poisoned) : ¬c'.Quarantines .poisoned := by
  cases hs
  case retryRun => exact not_sync h rfl (l.setRun fun _ => rfl) hi hr (by simp [hp, ItemClass.has])

end Quarantines

end Core

namespace Store

variable {s : Store}

theorem retryRun_failed {runId : Uuid} {run : Run} {now : Time} (hr : s.runs.get? runId = some run)
    (hs : run.state = .failed) :
    s.core.Step (.retryRun runId now) [.retried runId] (s.exec (.retryRun runId now)).core := by
  obtain ⟨_, he⟩ | ⟨s', he, hx⟩ := s.retryRun_cases runId now
  case inl =>
    have hk : run.id = runId := Table.key_of_get? hr
    have ha : s.runs.rows.any fun r => r.id = runId && r.state = .failed :=
      List.any_eq_true.mpr ⟨run, Table.mem_of_get? hr, by simp [hk, hs]⟩
    simp [retryRun, ha, Transaction.commit] at he
  case inr => simpa [exec, he] using hx

-- The poison counters of finalized batches, and the state of those that have nothing to complain of.
structure OutcomesFit (s : Store) : Prop where
  poisoned  : ∀ b ∈ s.batches, b.finalizedAt.isSome →
    b.poisonedItemCount = (s.core.itemsOf b.id).countP fun i =>
      i.state = .poisoned || i.state = .suspectedPoison
  succeeded : ∀ b ∈ s.batches, b.finalizedAt.isSome →
    (∀ run ∈ s.runs, run.batchId = some b.id → run.state = .succeeded) →
    (∀ i ∈ s.batchItems, i.batchId = b.id → i.state ≠ .invalid ∧ i.state ≠ .held ∧
      i.state ≠ .poisoned ∧ i.state ≠ .suspectedPoison) → b.state = .succeeded

instance : Decidable s.OutcomesFit :=
  decidable_of_iff (_ ∧ _) ⟨fun ⟨h₁, h₂⟩ => ⟨h₁, h₂⟩, fun h => ⟨h.poisoned, h.succeeded⟩⟩

end Store

namespace System

variable {σ : System} {act : Action} {as : List Action}

theorem Reachable.offers (h : σ.Reachable) : σ.store.core.Offers where
  run _ := h.run_of_offer
  unique a ha b hb hs hs' hr := by
    have ⟨run, hr', hm⟩ := h.slot ha
    have ⟨run₁, hr₁, hm₁⟩ := h.slot hb
    obtain rfl : run = run₁ := Option.some.inj <| hr'.symm.trans <| hr ▸ hr₁
    have he := (h.lawful_of_mem <| Table.mem_of_get? hr').sound.active_unique hm hm₁
      (by simp [Attempt.slot, hs, AttemptState.isActive]) (by simp [Attempt.slot, hs', AttemptState.isActive])
    exact Table.key_injOn ha hb <| congrArg Slot.id he

-- A result is recorded for a run that is still active, or that was cancelled.
theorem Reachable.active_of_concludes (h : σ.Reachable) {op : Op} (ho : σ.Enabled (.store op)) {a : Attempt}
    (ha : a ∈ σ.store.attempts) (hc : op.concludes a) {run : Run}
    (hr : σ.store.runs.get? a.runId = some run) (hn : run.state ≠ .cancelled) : run.state.isActive := by
  cases op
  case finishAttempt id token result encrypted random now =>
    obtain ⟨rfl, hc⟩ := hc
    exact h.active_of_concludable ha hc (fun _ => ho (a.id, .sent) rfl) hr hn
  case finishExpiredAttempt => exact h.active_of_concludable ha hc.right nofun hr hn
  all_goals exact hc.elim

-- What holds of batches and their runs no matter what is retried.
structure Settled (σ : System) : Prop where
  reachable : σ.Reachable
  tracked   : σ.store.core.Tracked
  followed  : σ.store.core.Followed
  kept      : ∀ k ∈ [ItemClass.invalid, .held], σ.store.core.Quarantines k

def unpoisons (σ : System) : Action → Bool
  | .store op   => σ.store.core.unpoisons op
  | .deliver .. => false

theorem Settled.initial : System.initial.Settled where
  reachable := .refl
  tracked   := fun _ h => absurd h Table.not_mem_empty
  followed  := fun _ h => absurd h Table.not_mem_empty
  kept      := fun _ _ _ h => absurd h Table.not_mem_empty

theorem Settled.quarantines_exec (h : σ.Settled) (ha : σ.Enabled act) {k : ItemClass} (hk : k.isQuarantine)
    (hq : σ.store.core.Quarantines k) (hn : k = .poisoned → σ.unpoisons act = false) :
    (σ.exec act).store.core.Quarantines k := by
  cases act
  case deliver => exact hq
  case store op =>
    refine hq.step hk h.reachable.linked h.tracked h.reachable.offers (fun b hb hs => ?_)
      (fun _ hm hc _ => h.reachable.active_of_concludes ha hm hc) hn (σ.store.exec_step op)
    exact (h.reachable.store.counted.tallied b hb <| by simp [hs, BatchState.isIngesting]).counts k

theorem Settled.exec (h : σ.Settled) (ha : σ.Enabled act) : (σ.exec act).Settled := by
  have hr := h.reachable
  refine ⟨hr.exec ha, ?_, ?_, fun k hk => h.quarantines_exec ha ?_ (h.kept k hk) ?_⟩
  case refine_1 | refine_2 =>
    cases act
    case deliver => first | exact h.tracked | exact h.followed
    case store op =>
      have hs := σ.store.exec_step op
      first
        | exact h.tracked.step hr.linked hr.offers hs
        | exact h.followed.step hr.linked h.tracked hr.offers
            (fun _ hm hc _ => hr.active_of_concludes ha hm hc) hs
  case refine_3 => cases k <;> simp_all [ItemClass.isQuarantine]
  case refine_4 => rintro rfl; simp at hk

-- Without a poisoned item that is counted wrongly, nothing else goes wrong.
theorem Settled.outcomesFit_iff (h : σ.Settled) :
    σ.store.OutcomesFit ↔ σ.store.core.Quarantines .poisoned := by
  refine ⟨fun hf => hf.poisoned, fun hq => ⟨hq, fun b hb hf hr hi => ?_⟩⟩
  have hc := h.followed.completed_of_succeeded h.reachable.linked hb hf fun st hst => by
    obtain ⟨run, hm, hb', rfl⟩ := Core.mem_childStates.mp hst
    exact hr run hm hb'
  have hz (k : ItemClass) (hk : k.isQuarantine) (hq : σ.store.core.Quarantines k) : b.countOf k = 0 := by
    have hn : σ.store.core.classCount k b.id = 0 := by
      refine List.countP_eq_zero.mpr fun i hm => ?_
      have ⟨hm, hb'⟩ := Table.mem_select.mp hm
      have hi := hi i hm (of_decide_eq_true hb')
      cases k <;> simp_all [ItemClass.has, ItemClass.isQuarantine]
    rw [hq b hb hf, hn]
    rfl
  have hd : b.quarantined = 0 := by
    have h₁ : b.invalidItemCount = 0 := hz .invalid rfl (h.kept _ (by simp))
    have h₂ : b.heldItemCount = 0 := hz .held rfl (h.kept _ (by simp))
    have h₃ : b.poisonedItemCount = 0 := hz .poisoned rfl hq
    rw [Batch.quarantined, h₁, h₂, h₃]
    rfl
  cases hs : b.state
  case succeeded => rfl
  case completedWithErrors =>
    refine absurd hd <| (h.followed b hb).done hs fun st hst => ?_
    obtain ⟨run, hm, hb', rfl⟩ := Core.mem_childStates.mp hst
    exact hr run hm hb'
  all_goals simp [hs, BatchState.isCompleted] at hc

theorem Settled.outcomesFit_exec_iff (h : σ.Settled) (ha : σ.Enabled act) (hf : σ.store.OutcomesFit) :
    (σ.exec act).store.OutcomesFit ↔ σ.unpoisons act = false := by
  rw [(h.exec ha).outcomesFit_iff]
  rw [h.outcomesFit_iff] at hf
  constructor
  case mpr => exact fun hn => h.quarantines_exec ha rfl hf fun _ => hn
  case mp =>
    intro hq
    by_contra hn
    cases act
    case deliver => contradiction
    case store op =>
      cases op
      case retryRun runId now =>
        simp only [unpoisons, Core.unpoisons, Bool.not_eq_false, Bool.and_eq_true, Option.any_eq_true,
          List.any_eq_true, decide_eq_true_eq] at hn
        obtain ⟨⟨run, hr, hs⟩, i, hi, he, hp⟩ := hn
        exact hf.not_retryRun h.reachable.linked (Store.retryRun_failed hr hs) hi he hp hq
      all_goals contradiction

-- The counters and outcomes of batches stay right along a run of the coordinator exactly as long as no
-- run is retried whose item was poisoned.
theorem outcomes_fit_iff (v : coordinator.Valid .initial as) :
    coordinator.Along (·.store.OutcomesFit) .initial as ↔
      (coordinator.restrict fun σ act => σ.unpoisons act = false).Valid .initial as := by
  refine v.along_iff (I := Settled) (fun _ _ h ha => h.exec ha)
    (fun _ _ h ha hf => h.outcomesFit_exec_iff ha hf) .initial ?_
  decide

end System

namespace Sample

def failure (attemptId : Uuid) (agentId : String) (time : Time) : NewHealthEvidence where
  attemptId         := some attemptId
  runId             := 201
  scheduleId        := 1
  agentId
  blueprintDigest   := "blueprint"
  inputFingerprint  := "input"
  classification    := classifyResult .failed none
  diagnostic        := none
  nodeWasHealthy    := true
  clusterSuppressed := false
  occurredAt        := time

-- The attempt is made and its result classified.
def attempted (attemptId : Uuid) (agentId : String) (outcome : ExecutionOutcome) (time : Time) :
    List Action := [
    .store (.createAttempt 201 agentId 30 attemptId "token" time),
    .deliver attemptId .sent,
    .store (.acceptAttempt attemptId "token" 30 time),
    .store (.finishAttempt attemptId "token" (result outcome) none 0 time)
  ]

-- The only run of a batch fails on two nodes, and its input is confirmed to be poisoned.
def poisonedChild : List Action := [
    .store (.upsertAgent "first" "host" [] 1 0 0),
    .store (.upsertAgent "second" "host" [] 1 0 0),
    .store (.createSchedule schedule 0),
    .store (.createBatch batch 2 0),
    .store (.claimCollectionBatch 100 "worker" 60 "lease" 0),
    .store (.commitCollectionPage { page with items := [item 101 0 "first"] } 0),
    .store (.finalizeBatch 100 "lease" (· + 100) 0)
  ] ++ attempted 20 "first" .failed 0 ++ [
    .store (.recordHealthEvidence (failure 20 "first" 0) 2 30 default 0),
    .store (.retryRun 201 1000)
  ] ++ attempted 21 "second" .failed 1000 ++ [
    .store (.recordHealthEvidence (failure 21 "second" 1000) 2 31 default 1000)
  ]

def recoveredChild : List Action :=
  poisonedChild ++ [.store (.retryRun 201 2000)] ++ attempted 22 "first" .succeeded 2000

end Sample

namespace System

open Sample

theorem outcomes_fit_iff_poisoned : coordinator.Valid .initial poisonedChild ∧
    coordinator.Along (·.store.OutcomesFit) .initial poisonedChild :=
  ⟨by decide, (outcomes_fit_iff <| by decide).mpr <| by decide⟩

theorem recovered_item_still_counted : ∃ σ : System, σ.Reachable ∧ ∃ b ∈ σ.store.batches,
    b.finalizedAt.isSome ∧ b.poisonedItemCount = 1 ∧ b.state = .completedWithErrors ∧
    (∀ i ∈ σ.store.batchItems, i.state = .succeeded) ∧ ∀ run ∈ σ.store.runs, run.state = .succeeded :=
  ⟨after recoveredChild, reachable_after <| by decide, by decide⟩

end System

end Scheduler
