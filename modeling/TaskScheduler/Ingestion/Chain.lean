import TaskScheduler.Ingestion.Progress
import TaskScheduler.Coordinator.Batches

namespace Scheduler

-- The row that `insert_collection_page` writes.
def CommitCollectionPage.row (page : CommitCollectionPage) (now : Time) : CollectionPage where
  batchId                  := page.batchId
  generation               := page.expectedGeneration
  requestCursorDigest      := page.requestCursorDigest
  pageDigest               := page.pageDigest
  collectionSnapshotDigest := page.collectionSnapshotDigest
  nextCursor               := page.nextCursor
  nextCursorDigest         := page.nextCursorDigest
  itemCount                := page.items.length
  isFinal                  := page.isFinal
  createdAt                := now

-- What `Store.advanceCursor` does to the row of the batch.
def Batch.advance (b : Batch) (page : CommitCollectionPage) (counts : PageCounts) : Batch :=
  { b with
    collectionSnapshot       := b.collectionSnapshot <|> some page.collectionSnapshot
    collectionSnapshotDigest := b.collectionSnapshotDigest <|> some page.collectionSnapshotDigest
    nextCursor               := page.nextCursor
    nextCursorDigest         := page.nextCursorDigest
    cursorGeneration         := b.cursorGeneration + 1
    ingestionComplete        := page.isFinal
    itemCount                := b.itemCount + counts.total
    validItemCount           := b.validItemCount + counts.ready
    invalidItemCount         := b.invalidItemCount + counts.invalid
    poisonedItemCount        := b.poisonedItemCount + counts.poisoned
    heldItemCount            := b.heldItemCount + counts.held
  }

-- What `commit_collection_page` checks before it applies a page.
structure Batch.Accepts (b : Batch) (page : CommitCollectionPage) (now : Time) : Prop where
  valid      : validatePage page = none
  generation : b.cursorGeneration = page.expectedGeneration
  collecting : b.state = .collecting
  incomplete : b.ingestionComplete = false
  token      : b.leaseToken = some page.leaseToken
  lease      : ∃ expiry ∈ b.leaseExpiresAt, now < expiry
  cursor     : b.nextCursorDigest = page.requestCursorDigest
  snapshot   : ∀ d ∈ b.collectionSnapshotDigest, d = page.collectionSnapshotDigest
  pageSize   : page.items.length ≤ b.pageSize
  maxItems   : b.itemCount + page.items.length ≤ b.maxItems

namespace Store

variable {s s' : Store} {page : CommitCollectionPage} {now : Time}

def pagesOf (s : Store) (batchId : Uuid) : List CollectionPage :=
  s.batchCollectionPages.select (·.batchId = batchId)

-- The page was applied: `items` are the items afterwards and `counts` what was counted.
structure Applies (s : Store) (page : CommitCollectionPage) (now : Time) (s' : Store) : Prop where
  intro ::
  exists_rows : ∃ batch pages items counts,
    s.batches.get? page.batchId = some batch ∧ batch.Accepts page now ∧
    s.batchCollectionPages.insert (page.row now) = some pages ∧
    insertItems page.batchId now {} { s with batchCollectionPages := pages } page.items =
      .ok ({ s with batchCollectionPages := pages, batchItems := items }, counts) ∧
    s'.batches = s.batches.update (·.id = page.batchId) (·.advance page counts) ∧
    s'.batchCollectionPages = pages ∧ s'.batchItems = items

theorem insertCollectionPage_row (h : s.insertCollectionPage page now = .ok s') :
    ∃ pages, s.batchCollectionPages.insert (page.row now) = some pages ∧
      s' = { s with batchCollectionPages := pages } := by
  simp only [insertCollectionPage] at h
  repeat' split at h
  all_goals cases h
  case _ hi => exact ⟨_, hi, rfl⟩

-- A page is applied under these conditions, and otherwise nothing is changed.
theorem commitCollectionPage_cases (s : Store) (page : CommitCollectionPage) (now : Time) :
    ((∀ s', s.commitCollectionPage page now ≠ .ok (.applied, s')) ∧
      (s.commitCollectionPage page now).persisted s = s) ∨
    ∃ s', s.commitCollectionPage page now = .ok (.applied, s') ∧ s.Applies page now s' := by
  simp only [commitCollectionPage]
  repeat' split
  any_goals exact .inl ⟨fun _ => by simp [Transaction.commit, Transaction.bail], rfl⟩
  case _ hv _ batch hb hg hc hn hd hp hm _ s₁ hi _ s₂ counts ht =>
    obtain ⟨pages, hw, rfl⟩ := insertCollectionPage_row hi
    obtain ⟨items, -, rfl⟩ := insertItems_eq ht
    simp only [ne_eq, Bool.or_eq_true, decide_eq_true_eq, Bool.not_eq_true', not_or, not_not,
      Bool.not_eq_true, Bool.not_eq_false, Option.any_eq_true] at hg hc hn
    refine .inr ⟨_, rfl, batch, pages, items, counts, hb, ?_, hw, ht, rfl, rfl, rfl⟩
    constructor
    case valid => exact hv
    case generation => exact hg
    case collecting => exact hc.left.left.left
    case incomplete => exact hc.left.left.right
    case token => exact hc.left.right
    case lease => exact hc.right
    case cursor => exact hn
    case snapshot =>
      intro d h
      rw [Option.mem_def.mp h] at hd
      simpa using hd
    case pageSize => omega
    case maxItems => omega

theorem Applies.pagesOf (h : s.Applies page now s') (batchId : Uuid) : s'.pagesOf batchId =
    s.pagesOf batchId ++ if page.batchId = batchId then [page.row now] else [] := by
  obtain ⟨batch, pages, items, counts, -, -, hi, -, -, hp, -⟩ := h
  have hb : (page.row now).batchId = page.batchId := rfl
  simp [Store.pagesOf, hp, Table.select_of_insert hi, hb]

-- What an operation can do to the ingestion of batches.
inductive Ingests (s s' : Store) : Prop
  | calm (hp : s'.batchCollectionPages = s.batchCollectionPages) (h : s.core.Calm s'.core)
  | opens (hp : s'.batchCollectionPages = s.batchCollectionPages) (h : s.Opens s')
  | applies {page : CommitCollectionPage} {now : Time} (h : s.Applies page now s')

theorem exec_ingests (l : s.core.Linked) (op : Op) : s.Ingests (s.exec op) := by
  by_cases hw : .batchCollectionPages ∈ op.writes
  case neg =>
    have hp := (s.exec_frame op).batchCollectionPages hw
    rcases exec_calm l op hw with hc | ho
    case inl => exact .calm hp hc
    case inr => exact .opens hp ho
  case pos =>
    cases op
    case commitCollectionPage page now =>
      rw [Store.exec]
      obtain ⟨-, hs⟩ | ⟨s', hs, ha⟩ := s.commitCollectionPage_cases page now
      case inl =>
        rw [hs]
        exact .calm rfl .refl
      case inr =>
        rw [hs]
        exact .applies ha
    all_goals simp [Op.writes, Op.writes.concluding] at hw

end Store

-- The pages of a batch, oldest first, lead from the start cursor to the cursor in its row.
structure Chained (pages : List CollectionPage) (g : Progress) : Prop where
  generations : pages.map (·.generation) = List.range g.cursorGeneration
  start       : ∀ p ∈ pages.head?, p.requestCursorDigest = startCursorDigest
  linked      : pages.IsChain fun p q => q.requestCursorDigest = p.nextCursorDigest
  cursor      : g.nextCursorDigest = (pages.getLast?.map (·.nextCursorDigest)).getD startCursorDigest
  snapshot    : ∀ p ∈ pages, g.collectionSnapshotDigest = some p.collectionSnapshotDigest
  final       : ∀ p ∈ pages.dropLast, p.isFinal = false
  complete    : g.ingestionComplete = pages.getLast?.any (·.isFinal)
  count       : g.itemCount = (pages.map fun p => (p.itemCount : Int)).sum
  bound       : g.itemCount ≤ g.maxItems

namespace Chained

variable {pages : List CollectionPage} {g : Progress}

theorem initial {new : NewBatch} {triggerId : Uuid} {now : Time} :
    Chained [] (new.row triggerId now).progress where
  generations := rfl
  start       := nofun
  linked      := .nil
  cursor      := rfl
  snapshot    := nofun
  final       := nofun
  complete    := rfl
  count       := rfl
  bound       := by simp [Batch.progress, NewBatch.row]

-- Until a page completes the ingestion, none is final.
theorem final_iff (h : Chained pages g) : g.ingestionComplete ↔ ∃ p ∈ pages, p.isFinal := by
  obtain rfl | ⟨init, last, rfl⟩ := pages.eq_nil_or_concat'
  case inl => simp [h.complete]
  case inr =>
    have hf := h.final
    rw [List.dropLast_concat] at hf
    rw [h.complete, List.getLast?_concat, Option.any_some]
    constructor
    case mp => exact fun hl => ⟨last, by simp, hl⟩
    case mpr =>
      intro ⟨p, hp, hx⟩
      obtain hp | hp := List.mem_append.mp hp
      case inl => simp [hf p hp] at hx
      case inr => exact List.mem_singleton.mp hp ▸ hx

theorem advance {b : Batch} {page : CommitCollectionPage} {counts : PageCounts} {now : Time}
    (h : Chained pages b.progress) (ha : b.Accepts page now) (hc : counts.total = page.items.length) :
    Chained (pages ++ [page.row now]) (b.advance page counts).progress := by
  constructor
  case generations =>
    simp [h.generations, Batch.progress, Batch.advance, CommitCollectionPage.row, ha.generation, List.range_succ]
  case start =>
    intro p hp
    cases pages
    case nil =>
      cases Option.some.inj hp
      exact ha.cursor.symm.trans h.cursor
    case cons q pages => exact h.start p hp
  case linked =>
    refine List.isChain_append.mpr ⟨h.linked, .singleton _, fun p hp q hq => ?_⟩
    cases Option.some.inj hq
    have hn := h.cursor
    rw [Option.mem_def.mp hp] at hn
    exact ha.cursor.symm.trans hn
  case cursor => simp [Batch.progress, Batch.advance, CommitCollectionPage.row]
  case snapshot =>
    intro p hp
    simp only [Batch.progress, Batch.advance]
    obtain hp | hp := List.mem_append.mp hp
    case inl =>
      have hs : b.collectionSnapshotDigest = some p.collectionSnapshotDigest := h.snapshot p hp
      simp [hs]
    case inr =>
      cases List.mem_singleton.mp hp
      cases hs : b.collectionSnapshotDigest
      case none => rfl
      case some d => exact congrArg some <| ha.snapshot d hs
  case final =>
    intro p hp
    rw [List.dropLast_concat] at hp
    have hn := mt h.final_iff.mpr (by simp [Batch.progress, ha.incomplete])
    exact eq_false_of_ne_true fun hf => hn ⟨p, hp, hf⟩
  case complete => simp [Batch.progress, Batch.advance, CommitCollectionPage.row]
  case count =>
    have hb : b.itemCount = _ := h.count
    simp [Batch.progress, Batch.advance, CommitCollectionPage.row, hb, hc]
  case bound =>
    have hm := ha.maxItems
    simp only [Batch.progress, Batch.advance, hc]
    exact hm

end Chained

namespace Store

variable {s s' : Store} {page : CommitCollectionPage} {now : Time}

theorem admitItem_total {batchId counts item r} (h : s.admitItem batchId counts item = .ok r) :
    r.2.1.total = counts.total := by
  simp only [admitItem] at h
  repeat' split at h
  all_goals cases h
  any_goals rfl
  case _ d _ _ _ _ counts' hc =>
    cases hs : d.state <;> simp only [hs, PageCounts.reclassifyAsInvalid, reduceCtorEq] at hc
    all_goals
      cases hc
      rfl

theorem observe_total {counts counts' : PageCounts} {st : BatchItemState}
    (h : counts.observe st = some counts') : counts'.total = counts.total + 1 := by
  cases st <;> cases h <;> rfl

-- Every item of a page is counted once.
theorem insertItems_total {batchId : Uuid} {items : List NewBatchItem} {counts : PageCounts} {r}
    (h : insertItems batchId now counts s items = .ok r) :
    r.2.total = counts.total + items.length := by
  induction items generalizing s counts
  case nil =>
    cases h
    simp
  case cons item items hi =>
    simp only [insertItems] at h
    repeat' split at h
    any_goals contradiction
    case _ ha _ counts₂ ho _ _ _ =>
      rw [hi h, observe_total ho, admitItem_total ha, List.length_cons]
      push_cast
      omega

-- Pages belong to batches, and those of each batch form its cursor chain.
structure Ingestion (s : Store) : Prop where
  owned   : ∀ p ∈ s.batchCollectionPages, ∃ b ∈ s.batches, b.id = p.batchId
  chained : ∀ b ∈ s.batches, Chained (s.pagesOf b.id) b.progress

namespace Ingestion

theorem empty : Store.empty.Ingestion where
  owned   := fun _ h => absurd h Table.not_mem_empty
  chained := fun _ h => absurd h Table.not_mem_empty

theorem of_same (h : s.Ingestion) (hp : s'.batchCollectionPages = s.batchCollectionPages)
    (hb : Table.Same Batch.progress s.batches s'.batches) : s'.Ingestion where
  owned p hm := by
    have ⟨b, hm, hk⟩ := h.owned p (hp ▸ hm)
    have ⟨b', hm', he⟩ := hb.exists_right hm
    exact ⟨b', hm', (congrArg Progress.id he).trans hk⟩
  chained b' hm' := by
    have ⟨b, hm, he⟩ := hb.exists_left hm'
    have hk : b.id = b'.id := congrArg Progress.id he
    have hc := h.chained b hm
    rw [he, hk] at hc
    simpa only [pagesOf, hp] using hc

theorem opens (h : s.Ingestion) (hp : s'.batchCollectionPages = s.batchCollectionPages)
    (ho : s.Opens s') : s'.Ingestion := by
  rcases ho with hc | ⟨new, triggerId, now, batches, hi, hc⟩
  case inl =>
    have hb : s'.batches = s.batches := congrArg Core.batches hc
    exact h.of_same hp <| hb ▸ .refl
  case inr =>
    have hb : s'.batches = batches := congrArg Core.batches hc
    have hm {b} : b ∈ s'.batches ↔ b ∈ s.batches ∨ b = new.row triggerId now := hb ▸ Table.mem_of_insert hi
    constructor
    case owned =>
      intro p hp'
      have ⟨b, hb, hk⟩ := h.owned p (hp ▸ hp')
      exact ⟨b, hm.mpr <| .inl hb, hk⟩
    case chained =>
      intro b hb
      have he : s'.pagesOf b.id = s.pagesOf b.id := by simp only [pagesOf, hp]
      rw [he]
      obtain hb | rfl := hm.mp hb
      case inl => exact h.chained b hb
      case inr =>
        -- No page can belong to a batch that did not exist.
        have hn : s.pagesOf (new.row triggerId now).id = [] := by
          refine List.filter_eq_nil_iff.mpr fun p hp hk => ?_
          have ⟨b, hb, hk'⟩ := h.owned p hp
          exact Table.get?_eq_none.mp (Table.get?_key_of_insert hi) b hb <|
            hk'.trans (of_decide_eq_true hk)
        exact hn ▸ .initial

theorem applies (h : s.Ingestion) (ha : s.Applies page now s') : s'.Ingestion := by
  have hx := ha.pagesOf
  obtain ⟨batch, pages, items, counts, hb, ha, hp, hi, hb', hp', -⟩ := ha
  have hk : batch.id = page.batchId := Table.key_of_get? hb
  have ht : counts.total = page.items.length := by simpa using insertItems_total hi
  constructor
  case owned =>
    intro p hm
    have ho : ∃ b ∈ s.batches, b.id = p.batchId := by
      obtain hm | rfl := (Table.mem_of_insert hp).mp (hp' ▸ hm)
      case inl => exact h.owned p hm
      case inr => exact ⟨batch, Table.mem_of_get? hb, hk⟩
    have ⟨b, hm, he⟩ := ho
    refine ⟨_, hb' ▸ Table.mem_update_of_mem hm, ?_⟩
    split <;> exact he
  case chained =>
    rw [hb']
    refine List.forall_mem_map.mpr fun b hm => ?_
    have hc := h.chained b hm
    by_cases he : b.id = page.batchId
    case neg =>
      simp only [he, decide_false, Bool.false_eq_true, if_false]
      simpa [hx, Ne.symm he] using hc
    case pos =>
      obtain rfl : b = batch := Table.key_injOn hm (Table.mem_of_get? hb) (he.trans hk.symm)
      simp only [he, decide_true, if_true]
      have hi : (b.advance page counts).id = b.id := rfl
      rw [hi, hx, if_pos hk.symm]
      exact hc.advance ha ht

theorem exec (h : s.Ingestion) (l : s.core.Linked) (op : Op) : (s.exec op).Ingestion := by
  cases exec_ingests l op
  case calm hp hc => exact h.of_same hp hc.batches
  case opens hp ho => exact h.opens hp ho
  case applies ha => exact h.applies ha

end Ingestion

theorem Reachable.ingestion (h : s.Reachable) : s.Ingestion :=
  And.right <| Machine.Reachable.invariant (I := fun s => s.core.Linked ∧ s.Ingestion)
    (fun _ op hi _ => ⟨linked_exec hi.left op, hi.right.exec hi.left op⟩) h ⟨linked_empty, .empty⟩

-- A batch that has its last page or has stopped to collect gets no page, and does not start again.
theorem Ingests.closed (h : s.Ingests s') {b : Batch} (hb : b ∈ s.batches)
    (hc : b.ingestionComplete ∨ b.state.isIngesting = false) :
    s'.pagesOf b.id = s.pagesOf b.id ∧ ∃ b' ∈ s'.batches, b'.progress = b.progress ∧
      (b.state.isIngesting = false → b'.state.isIngesting = false) := by
  cases h
  case calm hp hx =>
    have ⟨b', hb', he⟩ := hx.batches.exists_right hb
    refine ⟨by simp only [pagesOf, hp], b', hb', he, fun hs => ?_⟩
    by_contra hn
    have ⟨b₀, hb₀, hk₀, hs₀, _⟩ := hx.ingesting b' hb' (by simpa using hn)
    obtain rfl : b₀ = b := Table.key_injOn hb₀ hb (hk₀.trans <| congrArg Progress.id he)
    simp [hs] at hs₀
  case opens hp ho =>
    refine ⟨by simp only [pagesOf, hp], b, ?_, rfl, id⟩
    rcases ho with he | ⟨new, triggerId, now, batches, hi, he⟩
    case inl =>
      have he : s'.batches = s.batches := congrArg Core.batches he
      exact he ▸ hb
    case inr =>
      have he : s'.batches = batches := congrArg Core.batches he
      exact he ▸ (Table.mem_of_insert hi).mpr (.inl hb)
  case applies page now ha =>
    have hx := ha.pagesOf b.id
    obtain ⟨batch, pages, items, counts, hg, ha, -, -, hb', -⟩ := ha
    have hn : b.id ≠ page.batchId := by
      intro he
      obtain rfl : b = batch := Table.key_injOn hb (Table.mem_of_get? hg) (he.trans (Table.key_of_get? hg).symm)
      rcases hc with hc | hc
      case inl => simp [ha.incomplete] at hc
      case inr => simp [ha.collecting, BatchState.isIngesting] at hc
    refine ⟨by simpa [hn.symm] using hx, b, hb' ▸ List.mem_map.mpr ⟨b, hb, by simp [hn]⟩, rfl, id⟩

-- The batch takes no more pages: its last page was final, or it does not collect any more.
def Closed (s : Store) (batchId : Uuid) : Prop :=
  ∃ b ∈ s.batches, b.id = batchId ∧ (b.ingestionComplete ∨ b.state.isIngesting = false)

theorem Closed.exec {batchId : Uuid} (h : s.Closed batchId) (l : s.core.Linked) (op : Op) :
    (s.exec op).Closed batchId ∧ (s.exec op).pagesOf batchId = s.pagesOf batchId := by
  obtain ⟨b, hb, rfl, hc⟩ := h
  have ⟨hp, b', hb', he, hs⟩ := (exec_ingests l op).closed hb hc
  exact ⟨⟨b', hb', congrArg Progress.id he, hc.imp (congrArg Progress.ingestionComplete he).trans hs⟩, hp⟩

theorem Closed.run {batchId : Uuid} (h : s.Closed batchId) (l : s.core.Linked) (ops : List Op) :
    (database.run s ops).pagesOf batchId = s.pagesOf batchId := by
  induction ops generalizing s
  case nil => rfl
  case cons op ops hi =>
    have ⟨hc, hp⟩ := h.exec l op
    exact (hi hc (linked_exec l op)).trans hp

-- A page is only committed to a batch that collects.
theorem collecting_of_pagesOf_ne (l : s.core.Linked) {b : Batch} (hb : b ∈ s.batches) {op : Op}
    (hn : (s.exec op).pagesOf b.id ≠ s.pagesOf b.id) : b.state = .collecting := by
  cases exec_ingests l op
  case calm hp _ | opens hp _ => simp [pagesOf, hp] at hn
  case applies page now ha =>
    have hx := ha.pagesOf b.id
    obtain ⟨batch, _, _, _, hg, ha, -⟩ := ha
    have hk : page.batchId = b.id := by
      by_contra hk
      simp [hx, hk] at hn
    obtain rfl : b = batch := Table.key_injOn hb (Table.mem_of_get? hg) <|
      hk.symm.trans (Table.key_of_get? hg).symm
    exact ha.collecting

-- The pages of every batch form a linear chain of cursors. Once a page is final or the batch has
-- stopped to collect, no page is added, and only an applied page changes anything.
theorem pages_form_cursor_chain (h : s.Reachable) :
    (∀ b ∈ s.batches, Chained (s.pagesOf b.id) b.progress) ∧
    (∀ b ∈ s.batches, (∃ p ∈ s.pagesOf b.id, p.isFinal) ∨ b.state.isIngesting = false →
      ∀ ops, (database.run s ops).pagesOf b.id = s.pagesOf b.id) ∧
    (∀ b ∈ s.batches, ∀ op, (s.exec op).pagesOf b.id ≠ s.pagesOf b.id → b.state = .collecting) ∧
    ∀ page now outcome s', s.commitCollectionPage page now = .ok (outcome, s') →
      outcome = .stale ∨ outcome = .replayed → s' = s := by
  have hi := h.ingestion
  refine ⟨hi.chained, fun b hb hc ops => ?_, fun b hb op => collecting_of_pagesOf_ne h.linked hb, ?_⟩
  case refine_1 =>
    refine Closed.run ⟨b, hb, rfl, ?_⟩ h.linked ops
    exact hc.imp_left (hi.chained b hb).final_iff.mpr
  case refine_2 =>
    intro page now outcome s' he ho
    obtain ⟨-, hs⟩ | ⟨_, hs, -⟩ := s.commitCollectionPage_cases page now
    case inl => simpa [he] using hs
    case inr =>
      rw [he] at hs
      rcases ho with rfl | rfl <;> cases hs

end Store

namespace Sample

-- A first page that is not final.
def firstPage : CommitCollectionPage :=
  { page with
    nextCursor       := some "cursor"
    nextCursorDigest := "next"
    isFinal          := false
    items            := [item 101 0 "first"]
  }

def secondPage : CommitCollectionPage :=
  { page with
    leaseToken          := "takeover"
    expectedGeneration  := 1
    requestCursorDigest := "next"
    items               := [item 102 1 "second"]
  }

-- A second worker takes the batch over once the lease of the first has run out.
def takenOver : List Op := [
    .createSchedule schedule 0,
    .createBatch batch 2 0,
    .claimCollectionBatch 100 "worker" 60 "lease" 0,
    .commitCollectionPage firstPage 0,
    .claimCollectionBatch 100 "other" 60 "takeover" 100000,
    .commitCollectionPage secondPage 100000
  ]

end Sample

namespace Store

open Sample

theorem pages_form_cursor_chain_takenOver :
    ((database.run .empty takenOver).pagesOf 100).map (·.generation) = [0, 1] ∧
    ∀ b ∈ (database.run .empty takenOver).batches,
      Chained ((database.run .empty takenOver).pagesOf b.id) b.progress :=
  ⟨by decide, (pages_form_cursor_chain <| Reachable.run .refl takenOver).left⟩

end Store

end Scheduler
