import TaskScheduler.Ingestion.Counters
import TaskScheduler.Ingestion.Workers

namespace Scheduler

namespace BatchItemState

-- The states in which a poisoned input keeps an item from running.
def isKept : BatchItemState → Bool
  | poisoned | held => true
  | _               => false

theorem not_isKept_itemState (st : RunState) : st.itemState.isKept = false := by
  cases st <;> rfl

end BatchItemState

def BatchItem.mark (i : BatchItem) : Uuid × Uuid × BatchItemState :=
  (i.id, i.batchId, i.state)

theorem BatchItem.mark_eq {i : BatchItem} {id batchId : Uuid} {st : BatchItemState} :
    i.mark = (id, batchId, st) ↔ i.id = id ∧ i.batchId = batchId ∧ i.state = st := by
  simp [mark]

def Op.isEvidence : Op → Bool
  | .recordHealthEvidence .. => true
  | _                        => false

namespace Core

-- The items that are kept from running were so before.
def Spares (c c' : Core) : Prop :=
  ∀ i' ∈ c'.batchItems, i'.state.isKept → ∃ i ∈ c.batchItems, i.mark = i'.mark

variable {c c₁ c' : Core} {r : Uuid} {st : RunState} {op : Op} {entries : List LogEntry}

namespace Spares

theorem of_eq (h : c'.batchItems = c.batchItems) : c.Spares c' :=
  fun i hi _ => ⟨i, h ▸ hi, rfl⟩

theorem trans (h₁ : c.Spares c₁) (h₂ : c₁.Spares c') : c.Spares c' := by
  intro i' hi' hk
  have ⟨i₁, hi₁, he₁⟩ := h₂ i' hi' hk
  have hs : i₁.state = i'.state := congrArg (·.2.2) he₁
  have ⟨i, hi, he⟩ := h₁ i₁ hi₁ (hs ▸ hk)
  exact ⟨i, hi, he.trans he₁⟩

theorem of_update {p : BatchItem → Bool} {f : BatchItem → BatchItem}
    (h : c'.batchItems.rows = c.batchItems.rows.map fun i => if p i then f i else i)
    (hf : ∀ i, p i → (f i).state.isKept = false) : c.Spares c' := by
  intro i' hi' hk
  rw [← Table.mem_rows, h] at hi'
  have ⟨i, hi, he⟩ := List.mem_map.mp hi'
  split at he
  case isTrue hp => simp [← he, hf i hp] at hk
  case isFalse => exact ⟨i, hi, he ▸ rfl⟩

theorem sync : c.Spares (c.sync r st) := by
  simp only [Core.sync]
  split
  case h_1 => exact .of_eq rfl
  case h_2 => exact .of_update rfl fun _ _ => BatchItemState.not_isKept_itemState st

theorem sync_of_eq (h : c₁.batchItems = c.batchItems) : c.Spares (c₁.sync r st) :=
  .trans (.of_eq h) .sync

end Spares

section Collection

variable {batchId : Uuid} {items items' : Table BatchItem}

theorem Collects.length_le (h : Collects batchId items items') :
    items.rows.length ≤ items'.rows.length := by
  induction h
  case refl => exact le_rfl
  case add hi _ ih =>
    rw [Table.rows_of_insert hi, List.length_append] at ih
    exact (Nat.le_add_right ..).trans ih
  case invalidate ih => simpa [Table.update] using ih

-- Without new items, nothing is kept that was not.
theorem Collects.spares (h : Collects batchId items items')
    (hl : items'.rows.length = items.rows.length) :
    ∀ i' ∈ items', i'.state.isKept → ∃ i ∈ items, i.mark = i'.mark := by
  induction h
  case refl => exact fun i hi _ => ⟨i, hi, rfl⟩
  case add hi h _ =>
    have hl' := h.length_le
    rw [Table.rows_of_insert hi, List.length_append, hl] at hl'
    simp at hl'
  case invalidate ih =>
    intro i' hi' hk
    obtain ⟨i, hi, he⟩ := ih (by simpa [Table.update] using hl) i' hi' hk
    obtain ⟨j, hj, hx⟩ := Table.mem_update.mp hi
    split at hx
    case isTrue =>
      have hs : i.state = i'.state := congrArg (·.2.2) he
      simp [← hs, ← hx, BatchItemState.isKept] at hk
    case isFalse => exact ⟨j, hj, hx ▸ he⟩

end Collection

theorem Spares.finalize {batch : Batch} {items : List BatchItem} {state : BatchState} {now : Time}
    (hn : (items.map BatchItem.id).Nodup)
    (hi : ∀ i ∈ items, i ∈ c.batchItems ∧ i.batchId = batch.id ∧ i.state = .ready)
    (hm : Materializes batch items c c₁) : c.Spares (c₁.closeIngestion batch.id state now) := by
  have hc : c.Spares c₁ := by
    refine hm.preserves (P := c.Spares) ?_ hn hi (.of_eq rfl)
    intro c₁ item run runs hk _ _ _ _ _ _ _
    exact hk.trans <| .of_update rfl fun _ _ => rfl
  exact hc.trans <| .of_eq rfl

-- Only evidence and new items can add to what is kept.
theorem Step.spares (hs : c.Step op entries c') (he : op.isEvidence = false)
    (hl : c'.batchItems.rows.length = c.batchItems.rows.length) : c.Spares c' := by
  cases hs
  case collect hi => exact hi.spares hl
  case finalize hn hi hm _ => exact .finalize hn (fun i => (hi i).mp) hm
  case cancelBatch => exact .of_update rfl fun _ _ => rfl
  case offer | release | reject | cancelRun | retryRun => exact .sync_of_eq rfl
  case accept hc => exact hc ▸ .of_eq rfl
  case finish hc | finishExpired hc =>
    cases hc
    case late => exact .of_eq rfl
    case applied => exact .sync_of_eq rfl
  case poison => contradiction
  all_goals exact .of_eq rfl

-- A confirmed input poisons the items of the runs that it was seen in.
theorem mem_items_of_poison {poisoned : Uuid → Bool} {i' : BatchItem}
    (h : i' ∈ (c.poison poisoned).batchItems) : i' ∈ c.batchItems ∨ ∃ i ∈ c.batchItems,
      i.runId.any poisoned ∧ i.state.isPoisonable ∧ i'.mark = (i.id, i.batchId, .poisoned) := by
  have ⟨i, hi, he⟩ := List.mem_map.mp h
  split at he
  case isFalse => exact .inl <| he ▸ hi
  case isTrue hp =>
    have ⟨h₁, h₂⟩ := Bool.and_eq_true_iff.mp hp
    exact .inr ⟨i, hi, h₁, h₂, he ▸ rfl⟩

end Core

namespace Store

variable {s s' : Store} {batchId : Uuid} {now : Time} {counts : PageCounts}

theorem exec_spares (l : s.core.Linked) (op : Op) (hw : .batchCollectionPages ∉ op.writes)
    (he : op.isEvidence = false) : s.core.Spares (s.exec op).core := by
  apply (s.exec_step op).spares he
  cases exec_calm l op hw
  case inl hc =>
    have hl := congrArg List.length hc.items
    simpa using hl
  case inr ho =>
    cases ho
    case inl ho => rw [ho]
    case inr ho =>
      have ⟨_, _, _, _, _, ho⟩ := ho
      rw [ho]

theorem admitItem_state {item r} (h : s.admitItem batchId counts item = .ok r)
    (hk : r.2.2.state.isKept) : r.2.2 = item := by
  simp only [admitItem] at h
  repeat' split at h
  all_goals cases h
  any_goals rfl
  all_goals contradiction

theorem admitItem_spares {item r} (h : s.admitItem batchId counts item = .ok r) :
    s.core.Spares r.1.core := by
  cases admitItem_eq h
  case inl h => exact .of_eq <| congrArg Store.batchItems h
  case inr h =>
    have ⟨_, _, _, _, h⟩ := h
    rw [h]
    exact .of_update rfl fun _ _ => rfl

-- What is kept after a page was either so before or came with it.
theorem insertItems_kept {items r} (h : insertItems batchId now counts s items = .ok r) :
    ∀ i' ∈ r.1.batchItems, i'.state.isKept → (∃ i ∈ s.batchItems, i.mark = i'.mark) ∨
      ∃ item ∈ items, (item.id, batchId, item.state) = i'.mark := by
  induction items generalizing s counts
  case nil =>
    cases h
    exact fun i hi _ => .inl ⟨i, hi, rfl⟩
  case cons item items hi =>
    simp only [insertItems] at h
    repeat' split at h
    any_goals contradiction
    case _ s₁ _ item₁ ha _ _ _ _ s₂ hb =>
      intro i' hi' hk
      have ⟨rows, hr, hs₂⟩ := insertBatchItem_row hb
      cases hi h i' hi' hk
      case inr hx =>
        have ⟨item, hm, he⟩ := hx
        exact .inr ⟨item, List.mem_cons_of_mem _ hm, he⟩
      case inl hx =>
        have ⟨i, hi, he⟩ := hx
        have hs : i.state = i'.state := congrArg (·.2.2) he
        subst hs₂
        cases (Table.mem_of_insert hr).mp hi
        case inr hx =>
          subst hx
          have hs : item₁.state = i'.state := hs
          have ha : item₁ = item := admitItem_state ha (by rwa [hs])
          exact .inr ⟨item, List.mem_cons_self, ha ▸ he⟩
        case inl hi =>
          have ⟨j, hj, he'⟩ := admitItem_spares ha i hi (hs ▸ hk)
          exact .inl ⟨j, hj, he'.trans he⟩

theorem commitCollectionPage_kept (page : CommitCollectionPage) (now : Time) :
    ∀ i' ∈ (s.exec (.commitCollectionPage page now)).batchItems, i'.state.isKept →
      (∃ i ∈ s.batchItems, i.mark = i'.mark) ∨
      ∃ item ∈ page.items, (item.id, page.batchId, item.state) = i'.mark := by
  rw [exec]
  cases s.commitCollectionPage_cases page now
  case inl h =>
    rw [h.right]
    exact fun i hi _ => .inl ⟨i, hi, rfl⟩
  case inr h =>
    obtain ⟨s', hs, batch, pages, items, counts, _, _, _, hi, _, _, rfl⟩ := h
    rw [hs]
    exact insertItems_kept hi

theorem recordHealthEvidence_kept {e nodes id order} :
    ∀ i' ∈ (s.exec (.recordHealthEvidence e nodes id order now)).batchItems,
      i' ∈ s.batchItems ∨ ∃ i ∈ s.batchItems, (i.id, i.batchId) = (i'.id, i'.batchId) ∧
        i.state ≠ .poisoned ∧ i'.state = .poisoned := by
  intro i' hi'
  rw [exec] at hi'
  cases hr : s.recordHealthEvidence e nodes id order now
  case error => exact .inl <| by simpa [hr] using hi'
  case ok r =>
    obtain ⟨st, s'⟩ := r
    obtain ⟨_, _, _, hc⟩ := recordHealthEvidence_core hr
    have hi' : i' ∈ s'.core.batchItems := by simpa [hr] using hi'
    rw [hc] at hi'
    split at hi'
    case isFalse => exact .inl hi'
    case isTrue =>
      cases Core.mem_items_of_poison hi'
      case inl hi' => exact .inl hi'
      case inr h =>
        obtain ⟨i, hi, _, hp, he⟩ := h
        obtain ⟨h₁, h₂, h₃⟩ := BatchItem.mark_eq.mp he
        refine .inr ⟨i, hi, by rw [h₁, h₂], fun hs => ?_, h₃⟩
        simp [hs, BatchItemState.isPoisonable] at hp

-- Batches are never deleted.
theorem exists_batch_exec (l : s.core.Linked) (op : Op) {b : Batch} (hb : b ∈ s.batches) :
    ∃ b' ∈ (s.exec op).batches, b'.id = b.id := by
  cases exec_ingests l op
  case calm h =>
    have ⟨b', hb', he⟩ := h.batches.exists_right hb
    exact ⟨b', hb', congrArg Progress.id he⟩
  case opens h =>
    cases h
    case inl h =>
      have h : (s.exec op).batches = s.batches := congrArg Core.batches h
      exact ⟨b, h ▸ hb, rfl⟩
    case inr h =>
      have ⟨_, _, _, batches, hi, h⟩ := h
      have h : (s.exec op).batches = batches := congrArg Core.batches h
      exact ⟨b, h ▸ (Table.mem_of_insert hi).mpr (.inl hb), rfl⟩
  case applies h =>
    have ⟨_, _, _, _, _, _, _, _, hu, _, _⟩ := h
    have hs : Table.Same Batch.id s.batches (s.exec op).batches := by
      rw [hu]
      exact .of_update rfl fun _ _ _ => rfl
    exact hs.exists_right hb

-- What a claim returns is the row that it has written.
theorem get?_of_claimCollectionBatch {owner token : String} {seconds : Nat} {b : Batch}
    (h : s.claimCollectionBatch batchId owner seconds token now = .ok (some b, s')) :
    s'.batches.get? batchId = some b := by
  simp only [claimCollectionBatch] at h
  split at h
  case isTrue => cases h
  case isFalse =>
    obtain ⟨hg, hs⟩ := Prod.mk.inj <| Except.ok.inj h
    split at hg
    case isTrue => exact hs ▸ hg
    case isFalse => cases hg

-- The store went on without an item being condemned.
structure Continues (s s' : Store) : Prop where
  store   : s'.Reachable
  batches : ∀ b ∈ s.batches, ∃ b' ∈ s'.batches, b'.id = b.id
  items   : s.core.Spares s'.core

theorem Continues.refl (h : s.Reachable) : s.Continues s where
  store       := h
  batches b h := ⟨b, h, rfl⟩
  items       := .of_eq rfl

theorem Continues.exec (h : s.Reachable) {op : Op} (hw : .batchCollectionPages ∉ op.writes)
    (he : op.isEvidence = false) : s.Continues (s.exec op) where
  store     := h.exec op
  batches _ := exists_batch_exec h.linked op
  items     := exec_spares h.linked op hw he

end Store

namespace Worker

-- The items of the page that the worker is going to commit.
def items (w : Worker) : List NewBatchItem :=
  match w.stage with
  | .materializing _ items => items
  | _                      => []

-- What a step of a worker does to the store and to its page.
inductive Advances (s : Store) (w : Worker) (cipher : Cipher) (now : Time) (answer : Answer) :
    Store → Worker → Prop
  | wait (hb : w'.batch.id = w.batch.id) (hi : w'.items = w.items ∨ w'.items = []) :
      Advances s w cipher now answer s w'
  | exec (op : Op) (hs : s.exec op = s') (hw : .batchCollectionPages ∉ op.writes)
      (he : op.isEvidence = false) (hb : w'.batch.id = w.batch.id) (hi : w'.items = []) :
      Advances s w cipher now answer s' w'
  | draft (ha : answer = .drafted digests draft)
      (hs : w.stage = .materializing page w.items) (hl : w.items.length < page.items.length)
      (h : materializeItem s now (w.batch.itemCount.toNat + w.items.length) digests draft =
        .ok (item, s'))
      (hb : w'.batch.id = w.batch.id) (hi : w'.items = w.items ++ [item]) :
      Advances s w cipher now answer s' w'
  | commit (page : SourcePage)
      (hs : s.exec (.commitCollectionPage (w.commitOf cipher page w.items) now) = s')
      (hb : w'.batch.id = w.batch.id) (hi : w'.items = []) : Advances s w cipher now answer s' w'

variable {s : Store} {w : Worker} {cipher : Cipher} {now : Time}

theorem abort_batch {e : StoreError} : (w.abort e).batch = w.batch := by
  cases e <;> rfl

theorem abort_items {e : StoreError} : (w.abort e).items = [] := by
  cases e <;> rfl

theorem fetch_batch {page : SourcePage} : (w.fetch s cipher page).batch = w.batch := by
  simp only [fetch]
  repeat' split
  all_goals rfl

theorem fetch_items {page : SourcePage} : (w.fetch s cipher page).items = [] := by
  simp only [fetch]
  repeat' split
  all_goals rfl

theorem renew_advances {answer : Answer} :
    w.Advances s cipher now answer (w.renew s now).1 (w.renew s now).2 := by
  simp only [renew]
  split
  case h_1 => exact .wait (congrArg Batch.id abort_batch) (.inr abort_items)
  case h_2 hr | h_3 hr =>
    apply Advances.exec (.renewCollectionLease w.batch.id w.leaseToken collectionLeaseSeconds now)
    case hs => simp [Store.exec, hr]
    case hw => simp [Op.writes]
    all_goals rfl

theorem finalize_advances {answer : Answer} {newId : Uuid → Uuid} :
    w.Advances s cipher now answer (w.finalize s now newId).1 (w.finalize s now newId).2 := by
  simp only [finalize]
  split
  case h_1 => exact .wait (congrArg Batch.id abort_batch) (.inr abort_items)
  case h_2 hr =>
    apply Advances.exec (.finalizeBatch w.batch.id w.leaseToken newId now)
    case hs => simp [Store.exec, hr]
    case hw => simp [Op.writes]
    all_goals rfl

theorem commit_advances {answer : Answer} {page : SourcePage} {items : List NewBatchItem}
    (hs : w.items = items) : w.Advances s cipher now answer (w.commit s cipher now page items).1
      (w.commit s cipher now page items).2 := by
  subst hs
  simp only [commit]
  split
  case h_1 => exact .wait (congrArg Batch.id abort_batch) (.inr abort_items)
  case h_2 hr | h_3 hr => exact .commit page (by simp [Store.exec, hr]) rfl rfl

theorem materialize_advances {page : SourcePage} {items : List NewBatchItem}
    {digests : RawItemDigests} {draft : ItemDraft} (hs : w.stage = .materializing page items)
    (hl : items.length < page.items.length) :
    w.Advances s cipher now (.drafted digests draft)
      (w.materialize s now page items digests draft).1
      (w.materialize s now page items digests draft).2 := by
  have hi : w.items = items := by simp [Worker.items, hs]
  subst hi
  simp only [materialize]
  split
  case h_1 => exact .wait (congrArg Batch.id abort_batch) (.inr abort_items)
  case h_2 h => exact .draft rfl hs hl h rfl rfl

theorem step_advances (answer : Answer) : w.Advances s cipher now answer
    (w.step s cipher now answer).1 (w.step s cipher now answer).2 := by
  cases answer
  case failed =>
    simp only [step]
    split
    all_goals exact .wait rfl (.inr rfl)
  case fetched =>
    simp only [step]
    split
    case h_1 => exact .wait (congrArg Batch.id fetch_batch) (.inr fetch_items)
    case h_2 => exact .wait rfl (.inl rfl)
  case drafted =>
    simp only [step]
    split
    case h_2 => exact .wait rfl (.inl rfl)
    case h_1 hs =>
      split
      case isTrue hl => exact materialize_advances hs hl
      case isFalse => exact .wait rfl (.inl rfl)
  case named =>
    simp only [step]
    split
    case h_1 => exact finalize_advances
    case h_2 => exact .wait rfl (.inl rfl)
  case reached =>
    simp only [step]
    split
    case h_1 => exact renew_advances
    case h_2 hs =>
      split
      case isTrue => exact .wait rfl (.inl rfl)
      case isFalse => exact commit_advances (by simp [Worker.items, hs])
    case h_3 isFinal _ =>
      simp only [reload]
      split
      case h_1 => exact .wait rfl (.inr rfl)
      case h_2 hb =>
        apply Advances.wait
        case hb => exact Table.key_of_get? hb
        case hi => cases isFinal <;> exact .inr rfl
    case h_4 error _ =>
      apply Advances.exec (.failBatch w.batch.id (collectionErrorCode error))
      case hw => simp [Op.writes]
      all_goals rfl
    case h_5 => exact .wait rfl (.inl rfl)

theorem start_items {b : Batch} : (start b).items = [] := by
  simp only [start]
  split
  case h_1 => rfl
  case h_2 => cases b.ingestionComplete <;> rfl

theorem start_batch {b : Batch} : (start b).batch = b := by
  simp only [start]
  split <;> rfl

-- A draft is held if its input is.
theorem materializeItem_kept {s' : Store} {index : Nat} {digests : RawItemDigests}
    {draft : ItemDraft} {item : NewBatchItem}
    (h : materializeItem s now index digests draft = .ok (item, s')) (hk : item.state.isKept) :
    item.id = digests.id ∧ ∃ digest fingerprint snapshot n b c,
      draft = .rendered digest fingerprint snapshot n b c ∧
      s.consumeProbeOrIsHeld digest fingerprint now = .ok (true, s') := by
  cases draft
  case invalid =>
    cases h
    contradiction
  case rendered =>
    simp only [materializeItem] at h
    split at h
    case h_1 => cases h
    case h_2 hc =>
      cases h
      exact ⟨rfl, _, _, _, _, _, _, rfl, hc⟩
    case h_3 =>
      cases h
      contradiction

-- Of the store, a draft uses up a probe at most.
theorem materializeItem_store {s' : Store} {index : Nat} {digests : RawItemDigests}
    {draft : ItemDraft} {item : NewBatchItem}
    (h : materializeItem s now index digests draft = .ok (item, s')) :
    s' = s ∨ ∃ digest fingerprint, s.exec (.consumeProbeOrIsHeld digest fingerprint now) = s' := by
  cases draft
  case invalid =>
    cases h
    exact .inl rfl
  case rendered digest fingerprint _ _ _ _ =>
    refine .inr ⟨digest, fingerprint, ?_⟩
    simp only [materializeItem] at h
    split at h
    case h_1 => cases h
    case h_2 hc | h_3 hc =>
      cases h
      simp [Store.exec, hc]

theorem materializeItem_continues {s' : Store} {index : Nat} {digests : RawItemDigests}
    {draft : ItemDraft} {item : NewBatchItem} (hr : s.Reachable)
    (h : materializeItem s now index digests draft = .ok (item, s')) : s.Continues s' := by
  rcases materializeItem_store h with rfl | ⟨_, _, rfl⟩
  case inl => exact .refl hr
  case inr => exact .exec hr (by simp [Op.writes]) rfl

end Worker

namespace PoolEvent

-- Pages are committed by the workers only.
def isDirect : PoolEvent → Bool
  | .store (.commitCollectionPage ..) => false
  | _                                 => true

end PoolEvent

-- The workers and the other clients of the store.
def ingestion (cipher : Cipher) : Machine Pool PoolEvent :=
  (collectors cipher).restrict fun _ ev => ev.isDirect

namespace Pool

variable {cipher : Cipher} {p : Pool} {ev : PoolEvent} {evs : List PoolEvent}

-- The event keeps the item from running because of the input: evidence poisons it, or its worker
-- finds the input held.
inductive Condemns (cipher : Cipher) (p : Pool) (id batchId : Uuid) (digest fingerprint : String) :
    PoolEvent → Prop
  | poison {e : NewHealthEvidence} {ev : PoolEvent}
      (hev : ev = .store (.recordHealthEvidence e nodes evidenceId order now))
      (hd : (e.blueprintDigest, e.inputFingerprint) = (digest, fingerprint))
      (hi : i ∈ p.store.batchItems) (hk : (i.id, i.batchId) = (id, batchId))
      (hn : i.state ≠ .poisoned)
      (hi' : i' ∈ (p.exec cipher ev).store.batchItems) (hk' : i'.id = id)
      (hs : i'.state = .poisoned) :
      Condemns cipher p id batchId digest fingerprint ev
  | hold {digests : RawItemDigests} (hw : p.workers k = some w)
      (hs : w.stage = .materializing page w.items) (hl : w.items.length < page.items.length)
      (hb : w.batch.id = batchId) (hd : digests.id = id)
      (hh : p.store.consumeProbeOrIsHeld digest fingerprint now = .ok (true, s')) :
      Condemns cipher p id batchId digest fingerprint
        (.step k now (.drafted digests (.rendered digest fingerprint snapshot a b c)))

-- The item was kept from running by one of the events.
def Condemned (cipher : Cipher) (evs : List PoolEvent) (id batchId : Uuid) : Prop :=
  ∃ evs₁ ev evs₂ digest fingerprint, evs = evs₁ ++ ev :: evs₂ ∧
    ((ingestion cipher).run .initial evs₁).Condemns cipher id batchId digest fingerprint ev

theorem Condemned.concat {id batchId : Uuid} (h : Condemned cipher evs id batchId) :
    Condemned cipher (evs ++ [ev]) id batchId := by
  have ⟨evs₁, ev₁, evs₂, digest, fingerprint, he, hc⟩ := h
  exact ⟨evs₁, ev₁, evs₂ ++ [ev], digest, fingerprint, by simp [he], hc⟩

theorem Condemns.condemned {id batchId : Uuid} {digest fingerprint : String}
    (h : ((ingestion cipher).run .initial evs).Condemns cipher id batchId digest fingerprint ev) :
    Condemned cipher (evs ++ [ev]) id batchId :=
  ⟨evs, ev, [], digest, fingerprint, by simp, h⟩

-- Every item that is kept, in the store or in the page of a worker, was condemned.
structure Accounted (cipher : Cipher) (evs : List PoolEvent) (p : Pool) : Prop where
  store   : p.store.Reachable
  batch   : ∀ k w, p.workers k = some w → ∃ b ∈ p.store.batches, b.id = w.batch.id
  items   : ∀ i ∈ p.store.batchItems, i.state.isKept → Condemned cipher evs i.id i.batchId
  pending : ∀ k w, p.workers k = some w → ∀ item ∈ w.items, item.state.isKept →
    Condemned cipher evs item.id w.batch.id

namespace Accounted

theorem initial : Accounted cipher [] .initial where
  store   := .refl
  batch   := fun _ _ h => nomatch h
  items   := fun _ h => absurd h Table.not_mem_empty
  pending := fun _ _ h => nomatch h

-- The rule for one more event: what is newly kept was condemned by it.
theorem concat (h : Accounted cipher evs p) {p' : Pool} (hs : p'.store.Reachable)
    (hb : ∀ b ∈ p.store.batches, ∃ b' ∈ p'.store.batches, b'.id = b.id)
    (hi : ∀ i' ∈ p'.store.batchItems, i'.state.isKept →
      (∃ i ∈ p.store.batchItems, i.mark = i'.mark) ∨
        Condemned cipher (evs ++ [ev]) i'.id i'.batchId)
    (hw : ∀ k w', p'.workers k = some w' →
      (w'.items = [] ∧ ∃ b ∈ p'.store.batches, b.id = w'.batch.id) ∨
      ∃ w, p.workers k = some w ∧ w'.batch.id = w.batch.id ∧ ∀ item ∈ w'.items, item.state.isKept →
        item ∈ w.items ∨ Condemned cipher (evs ++ [ev]) item.id w.batch.id) :
    Accounted cipher (evs ++ [ev]) p' := by
  constructor
  case store => exact hs
  case batch =>
    intro k w' hk
    cases hw k w' hk
    case inl hx => exact hx.right
    case inr hx =>
      have ⟨w, hk, he, _⟩ := hx
      have ⟨b, hm, hx⟩ := h.batch k w hk
      have ⟨b', hm, hx'⟩ := hb b hm
      exact ⟨b', hm, hx'.trans <| hx.trans he.symm⟩
  case items =>
    intro i' hm hk
    cases hi i' hm hk
    case inr hc => exact hc
    case inl hx =>
      have ⟨i, hm, he⟩ := hx
      have ⟨h₁, h₂, h₃⟩ := BatchItem.mark_eq.mp he
      have hc := h.items i hm (by rwa [h₃])
      rw [h₁, h₂] at hc
      exact hc.concat
  case pending =>
    intro k w' hk item hm hs
    cases hw k w' hk
    case inl hx => simp [hx.left] at hm
    case inr hx =>
      have ⟨w, hk, he, hx⟩ := hx
      rw [he]
      cases hx item hm hs
      case inl hm => exact (h.pending k w hk item hm hs).concat
      case inr hc => exact hc

theorem concat_worker (h : Accounted cipher evs p) {k : Nat} {w' : Worker} {s' : Store}
    (hs : s'.Reachable) (hb : ∀ b ∈ p.store.batches, ∃ b' ∈ s'.batches, b'.id = b.id)
    (hi : ∀ i' ∈ s'.batchItems, i'.state.isKept →
      (∃ i ∈ p.store.batchItems, i.mark = i'.mark) ∨
        Condemned cipher (evs ++ [ev]) i'.id i'.batchId)
    (hw : (w'.items = [] ∧ ∃ b ∈ s'.batches, b.id = w'.batch.id) ∨
      ∃ w, p.workers k = some w ∧ w'.batch.id = w.batch.id ∧ ∀ item ∈ w'.items, item.state.isKept →
        item ∈ w.items ∨ Condemned cipher (evs ++ [ev]) item.id w.batch.id) :
    Accounted cipher (evs ++ [ev]) ⟨s', Function.update p.workers k w'⟩ := by
  apply h.concat hs hb hi
  intro j w₁ hj
  dsimp only at hj
  by_cases hk : j = k
  case pos =>
    subst hk
    rw [Function.update_self] at hj
    cases hj
    exact hw
  case neg =>
    rw [Function.update_of_ne hk] at hj
    exact .inr ⟨w₁, hj, rfl, fun _ hm _ => .inl hm⟩

-- Neither the store nor the workers condemn an item.
theorem continues (h : Accounted cipher evs p) {s' : Store} (hs : p.store.Continues s') :
    Accounted cipher (evs ++ [ev]) { p with store := s' } := by
  apply h.concat hs.store hs.batches fun i hi hk => .inl <| hs.items i hi hk
  exact fun k w hw => .inr ⟨w, hw, rfl, fun _ hm _ => .inl hm⟩

theorem store_op (h : Accounted cipher evs ((ingestion cipher).run .initial evs)) {op : Op}
    (hd : (PoolEvent.store op).isDirect) : Accounted cipher (evs ++ [.store op])
      (((ingestion cipher).run .initial evs).exec cipher (.store op)) := by
  have l := h.store.linked
  apply h.concat (h.store.exec op) fun b => Store.exists_batch_exec l op
  case hw => exact fun k w hk => .inr ⟨w, hk, rfl, fun _ hm _ => .inl hm⟩
  case hi =>
    intro i' hm hk
    by_cases he : op.isEvidence
    case neg =>
      have hw : .batchCollectionPages ∉ op.writes := by
        cases op <;> simp_all [Op.writes, Op.writes.concluding, PoolEvent.isDirect]
      exact .inl <| Store.exec_spares l op hw (by simpa using he) i' hm hk
    case pos =>
      cases op
      case recordHealthEvidence e nodes id order now =>
        cases Store.recordHealthEvidence_kept i' hm
        case inl hm => exact .inl ⟨i', hm, rfl⟩
        case inr hx =>
          obtain ⟨i, hi, hk, hn, hs⟩ := hx
          exact .inr <| Condemns.condemned <| .poison rfl rfl hi hk hn hm rfl hs
      all_goals contradiction

theorem claim (h : Accounted cipher evs p) {k : Nat} {batchId : Uuid} {owner token : String}
    {now : Time} : Accounted cipher (evs ++ [ev]) (p.claim k batchId owner token now) := by
  let op := Op.claimCollectionBatch batchId owner collectionLeaseSeconds token now
  have hs : p.store.Continues (p.store.exec op) := .exec h.store (by simp [op, Op.writes]) rfl
  simp only [Pool.claim]
  split
  case h_1 batch s' hc =>
    have he : p.store.exec op = s' := by simp [op, Store.exec, hc]
    rw [he] at hs
    apply h.concat_worker hs.store hs.batches fun i hi hk => .inl <| hs.items i hi hk
    have hm := Table.mem_of_get? <| Store.get?_of_claimCollectionBatch hc
    exact .inl ⟨Worker.start_items, batch, hm, Worker.start_batch ▸ rfl⟩
  case h_2 s' hc =>
    have he : p.store.exec op = s' := by simp [op, Store.exec, hc]
    exact h.continues <| he ▸ hs
  case h_3 => exact h.continues <| .refl h.store

theorem step (h : Accounted cipher evs ((ingestion cipher).run .initial evs)) {k : Nat} {now : Time}
    {answer : Answer} : Accounted cipher (evs ++ [.step k now answer])
      (((ingestion cipher).run .initial evs).exec cipher (.step k now answer)) := by
  have l := h.store.linked
  simp only [Pool.exec]
  split
  case h_1 => exact h.continues <| .refl h.store
  case h_2 w hw =>
    have ha : w.Advances ((ingestion cipher).run .initial evs).store cipher now answer _ _ :=
      w.step_advances answer
    generalize (w.step ((ingestion cipher).run .initial evs).store cipher now answer).1 = s' at ha ⊢
    generalize (w.step ((ingestion cipher).run .initial evs).store cipher now answer).2 = w' at ha ⊢
    cases ha
    case wait hb hi =>
      apply h.concat_worker h.store (fun b hb => ⟨b, hb, rfl⟩) fun i hi _ => .inl ⟨i, hi, rfl⟩
      refine .inr ⟨w, hw, hb, fun item hm _ => ?_⟩
      cases hi
      case inl hi => exact .inl <| hi ▸ hm
      case inr hi => simp [hi] at hm
    case exec op hx he hs hb hi =>
      have hc := hs ▸ Store.Continues.exec h.store hx he
      apply h.concat_worker hc.store hc.batches fun i hi hk => .inl <| hc.items i hi hk
      exact .inr ⟨w, hw, hb, by simp [hi]⟩
    case draft digests draft page item ha hs hl hm hb hi =>
      have hc := Worker.materializeItem_continues h.store hm
      apply h.concat_worker hc.store hc.batches fun i hi hk => .inl <| hc.items i hi hk
      refine .inr ⟨w, hw, hb, fun item' hm' hk' => ?_⟩
      rw [hi] at hm'
      cases List.mem_append.mp hm'
      case inl hm' => exact .inl hm'
      case inr hm' =>
        have hm' := List.mem_singleton.mp hm'
        subst hm' ha
        obtain ⟨hd, digest, fingerprint, snapshot, a, b, c, he, hc⟩ :=
          Worker.materializeItem_kept hm hk'
        subst he
        exact .inr <| Condemns.condemned <| .hold hw hs hl rfl hd.symm hc
    case commit page hs hb hi =>
      subst hs
      apply h.concat_worker (h.store.exec _) fun b => Store.exists_batch_exec l _
      case hw => exact .inr ⟨w, hw, hb, by simp [hi]⟩
      case hi =>
        intro i' hm hk
        cases Store.commitCollectionPage_kept _ now i' hm hk
        case inl hx => exact .inl hx
        case inr hx =>
          obtain ⟨item, hm, he⟩ := hx
          obtain ⟨h₁, h₂, h₃⟩ := BatchItem.mark_eq.mp he.symm
          rw [h₁, h₂]
          exact .inr <| (h.pending k w hw item hm (by rwa [← h₃])).concat

end Accounted

theorem accounted (v : (ingestion cipher).Valid .initial evs) :
    Accounted cipher evs ((ingestion cipher).run .initial evs) := by
  induction evs using List.reverseRecOn
  case nil => exact .initial
  case append_singleton evs ev ih =>
    have ⟨v, hv⟩ := Machine.Valid.append_iff.mp v
    have ⟨⟨_, hd⟩, _⟩ := Machine.Valid.cons_iff.mp hv
    rw [Machine.run_append]
    have h := ih v
    cases ev
    case store => exact h.store_op hd
    case claim => exact h.claim
    case step => exact h.step

end Pool

end Scheduler
