import TaskScheduler.Ingestion.Holding

namespace Scheduler

namespace Batch

-- A later row of the same batch. If pages were committed in between, the last of them was final or
-- they had items.
structure Leads (b b' : Batch) : Prop where
  maxItems : b'.maxItems = b.maxItems
  order    : b.cursorGeneration ≤ b'.cursorGeneration
  same     : b'.cursorGeneration = b.cursorGeneration →
    b'.ingestionComplete = b.ingestionComplete ∧ b'.itemCount = b.itemCount
  further  : b.cursorGeneration < b'.cursorGeneration →
    b.ingestionComplete = false ∧ (b'.ingestionComplete ∨ b.itemCount < b'.itemCount)

-- How many pages a worker with this record can still ask to commit.
def allowance (b : Batch) : Nat :=
  if b.ingestionComplete then 1 else max 1 (b.maxItems - b.itemCount).toNat

variable {b b₁ b₂ b' : Batch}

namespace Leads

theorem of_progress (h : b'.progress = b.progress) : b.Leads b' where
  maxItems  := congrArg Progress.maxItems h
  order     := (congrArg Progress.cursorGeneration h).ge
  same _    := ⟨congrArg Progress.ingestionComplete h, congrArg Progress.itemCount h⟩
  further g := absurd (congrArg Progress.cursorGeneration h) g.ne'

theorem refl : b.Leads b :=
  .of_progress rfl

theorem trans (h₁ : b.Leads b₁) (h₂ : b₁.Leads b₂) : b.Leads b₂ where
  maxItems := h₂.maxItems.trans h₁.maxItems
  order    := h₁.order.trans h₂.order
  same g   := by
    have ho₁ := h₁.order
    have ho₂ := h₂.order
    have ⟨hc₁, hi₁⟩ := h₁.same (by omega)
    have ⟨hc₂, hi₂⟩ := h₂.same (by omega)
    exact ⟨hc₂.trans hc₁, hi₂.trans hi₁⟩
  further g := by
    rcases h₁.order.lt_or_eq with g₁ | g₁
    case inl =>
      have ⟨hc, hx⟩ := h₁.further g₁
      refine ⟨hc, ?_⟩
      rcases h₂.order.lt_or_eq with g₂ | g₂
      case inl =>
        have ⟨hc₂, hx₂⟩ := h₂.further g₂
        have hx := hx.resolve_left (by simp [hc₂])
        exact hx₂.imp_right hx.trans
      case inr =>
        have ⟨hc₂, hi₂⟩ := h₂.same g₂.symm
        rwa [hc₂, hi₂]
    case inr =>
      have ⟨hc, hi⟩ := h₁.same g₁.symm
      have ⟨hc₂, hx₂⟩ := h₂.further (g₁ ▸ g)
      exact ⟨hc ▸ hc₂, hi ▸ hx₂⟩

theorem advance {page : CommitCollectionPage} {counts : PageCounts}
    (hc : b.ingestionComplete = false) (ht : counts.total = page.items.length)
    (hn : page.isFinal ∨ page.items ≠ []) : b.Leads (b.advance page counts) where
  maxItems  := rfl
  order     := Nat.le_succ _
  same g    := absurd g (Nat.succ_ne_self _)
  further _ := by
    refine ⟨hc, hn.imp_right fun hn => ?_⟩
    have hl := List.length_pos_iff.mpr hn
    simp only [Batch.advance, ht]
    omega

end Leads

theorem one_le_allowance : 1 ≤ b.allowance := by
  unfold allowance
  split
  case isTrue => exact le_rfl
  case isFalse => exact Nat.le_max_left ..

theorem Leads.allowance_le (h : b.Leads b') : b'.allowance ≤ b.allowance := by
  unfold allowance
  rcases h.order.lt_or_eq with g | g
  case inl =>
    have ⟨hc, hx⟩ := h.further g
    rw [hc, h.maxItems]
    simp only [Bool.false_eq_true, if_false]
    split
    case isTrue => exact Nat.le_max_left ..
    case isFalse hc' =>
      have hx := hx.resolve_left hc'
      omega
  case inr =>
    have ⟨hc, hi⟩ := h.same g.symm
    rw [hc, hi, h.maxItems]

-- After a page that was not the last one there is one page less to ask for.
theorem Leads.allowance_lt (h : b.Leads b') (g : b.cursorGeneration < b'.cursorGeneration)
    (hr : b.itemCount + 1 < b.maxItems) : b'.allowance < b.allowance := by
  have ⟨hc, hx⟩ := h.further g
  unfold allowance
  rw [hc, h.maxItems]
  simp only [Bool.false_eq_true, if_false]
  split
  case isTrue => omega
  case isFalse hc' =>
    have hx := hx.resolve_left hc'
    omega

end Batch

namespace Store

variable {s s₁ s' : Store} {page : CommitCollectionPage} {now : Time}

-- Every batch is where it was, or further.
def Proceeds (s s' : Store) : Prop :=
  ∀ id b, s.batches.get? id = some b → ∃ b', s'.batches.get? id = some b' ∧ b.Leads b'

theorem Proceeds.refl : s.Proceeds s :=
  fun _ b hb => ⟨b, hb, .refl⟩

theorem Proceeds.calm (h : s.core.Calm s'.core) : s.Proceeds s' := by
  intro id b hb
  have ⟨b', hb', he⟩ := h.batches.exists_right (Table.mem_of_get? hb)
  have hk : b'.id = id := (congrArg Progress.id he).trans (Table.key_of_get? hb)
  exact ⟨b', hk ▸ Table.get?_of_mem hb', .of_progress he⟩

theorem Proceeds.opens (h : s.Opens s') : s.Proceeds s' := by
  rcases h with he | ⟨new, triggerId, now, batches, hi, he⟩
  case inl =>
    have hb : s'.batches = s.batches := congrArg Core.batches he
    exact fun _ b h => ⟨b, hb ▸ h, .refl⟩
  case inr =>
    have hb : s'.batches = batches := congrArg Core.batches he
    intro id b h
    refine ⟨b, ?_, .refl⟩
    rw [hb, Table.get?_of_insert hi, if_neg, h]
    rintro rfl
    simp [Table.get?_key_of_insert hi] at h

theorem Proceeds.exec (l : s.core.Linked) {op : Op} (hw : .batchCollectionPages ∉ op.writes) :
    s.Proceeds (s.exec op) := by
  rcases exec_calm l op hw with hc | ho
  case inl => exact .calm hc
  case inr => exact .opens ho

theorem Applies.proceeds (h : s.Applies page now s') (hn : page.isFinal ∨ page.items ≠ []) :
    s.Proceeds s' := by
  obtain ⟨batch, pages, items, counts, hb, ha, -, hi, hu, -⟩ := h
  have ht : counts.total = page.items.length := by simpa using insertItems_total hi
  intro id b hg
  rw [hu, Table.get?_update, hg, Option.map_some]
  refine ⟨_, rfl, ?_⟩
  split
  case isFalse => exact .refl
  case isTrue hk =>
    have hk : id = page.batchId := (Table.key_of_get? hg).symm.trans (of_decide_eq_true hk)
    obtain rfl : b = batch := Option.some.inj <| (hk ▸ hg).symm.trans hb
    exact .advance ha.incomplete ht hn

theorem commitCollectionPage_proceeds (hn : page.isFinal ∨ page.items ≠ []) :
    s.Proceeds ((s.commitCollectionPage page now).persisted s) := by
  obtain ⟨-, hs⟩ | ⟨s', hs, ha⟩ := s.commitCollectionPage_cases page now
  case inl => exact hs.symm ▸ .refl
  case inr => exact hs ▸ ha.proceeds hn

-- A page that is not stale has the batch go further than the record the worker went by.
theorem further_of_commit {outcome : CommitPageOutcome} {b : Batch}
    (h : s.commitCollectionPage page now = .ok (outcome, s')) (hs : outcome ≠ .stale)
    (hb : s.batches.get? page.batchId = some b)
    (ho : page.expectedGeneration ≤ b.cursorGeneration) :
    ∃ b', s'.batches.get? page.batchId = some b' ∧
      page.expectedGeneration < b'.cursorGeneration := by
  obtain ⟨hn, hs'⟩ | ⟨s₁, hs', ha⟩ := s.commitCollectionPage_cases page now
  case inl =>
    have he : s' = s := by simpa [h] using hs'
    refine ⟨b, he ▸ hb, lt_of_le_of_ne ho fun hg => ?_⟩
    -- Of the current generation a page is applied, if at all.
    cases outcome
    case applied => exact hn s' h
    case stale => exact hs rfl
    case replayed =>
      simp only [commitCollectionPage, hb, hg, ne_eq, not_true_eq_false, if_false] at h
      repeat' split at h
      all_goals simp [Transaction.commit, Transaction.bail] at h
  case inr =>
    obtain ⟨batch, _, _, counts, hb', ha, -, -, hu, -⟩ := ha
    have he : outcome = .applied ∧ s' = s₁ := by simpa [h] using hs'
    obtain ⟨-, rfl⟩ := he
    refine ⟨batch.advance page counts, ?_, ?_⟩
    case refine_1 =>
      have hk : batch.id = page.batchId := Table.key_of_get? hb'
      rw [hu, Table.get?_update, hb', Option.map_some, if_pos (by simpa using hk)]
    case refine_2 =>
      simp only [Batch.advance, ha.generation]
      omega

end Store

namespace Worker

-- The step is the call of `commit_collection_page`.
def commits (w : Worker) : Answer → Bool
  | .reached =>
    match w.stage with
    | .materializing page items => page.items.length ≤ items.length
    | _                         => false
  | _ => false

-- The answer is one that the worker waits for.
def awaits (w : Worker) (answer : Answer) : Bool :=
  match w.stage, answer with
  | .done, _                                 => false
  | _, .failed _                             => true
  | .renewing, .reached                      => true
  | .fetching, .fetched _                    => true
  | .materializing page items, .drafted ..   => items.length < page.items.length
  | .materializing page items, .reached      => page.items.length ≤ items.length
  | .reloading _, .reached                   => true
  | .finalizing, .named _                    => true
  | .failing _, .reached                     => true
  | _, _                                     => false

-- A worker that is not done waits for something other than a failure.
theorem exists_awaits {w : Worker} (h : w.stage ≠ .done) :
    ∃ answer, w.awaits answer ∧ ∀ e, answer ≠ .failed e := by
  cases hs : w.stage
  case done => contradiction
  case renewing | reloading | failing => exact ⟨.reached, by simp [awaits, hs], nofun⟩
  case fetching => exact ⟨.fetched ⟨"", [], none⟩, by simp [awaits, hs], nofun⟩
  case finalizing => exact ⟨.named id, by simp [awaits, hs], nofun⟩
  case materializing page items =>
    by_cases hi : items.length < page.items.length
    case pos => exact ⟨.drafted ⟨0, "", ""⟩ (.invalid ""), by simpa [awaits, hs] using hi, nofun⟩
    case neg => exact ⟨.reached, by simpa [awaits, hs] using hi, nofun⟩

-- What the worker has found out about the page that it is going to commit.
structure Checked (w : Worker) : Prop where
  count : 0 ≤ w.batch.itemCount
  page  : ∀ page items, w.stage = .materializing page items →
    w.batch.itemCount + page.items.length ≤ w.batch.maxItems ∧
      (page.nextCursor.isSome → page.items ≠ [] ∧
        w.batch.itemCount + page.items.length < w.batch.maxItems)

variable (s : Store) (w : Worker)

-- How many pages the worker can still ask to commit.
def allowance : Nat :=
  match w.stage with
  | .renewing | .fetching | .materializing .. => w.batch.allowance
  | .reloading false                          => (s.batches.get? w.batch.id).elim 0 Batch.allowance
  | _                                         => 0

-- How many answers the worker can still wait for: a page takes at most as many as it has items, and
-- five more.
def work : Nat :=
  let round := w.batch.maxItems + 6
  match w.stage with
  | .renewing                 => round * w.batch.allowance
  | .fetching                 => round * w.batch.allowance - 1
  | .materializing page items =>
    round * (w.batch.allowance - 1) + 4 + (page.items.length - items.length)
  | .reloading false          => round * (s.batches.get? w.batch.id).elim 0 Batch.allowance + 1
  | .reloading true           => 3
  | .finalizing               => 2
  | .failing _                => 1
  | .done                     => 0

variable {s : Store} {w w' : Worker} {cipher : Cipher} {now : Time} {b : Batch} {s' : Store}

theorem allowance_materializing {page : SourcePage} {items : List NewBatchItem}
    (h : w.stage = .materializing page items) : w.allowance s = w.batch.allowance := by
  simp only [allowance, h]

theorem work_materializing {page : SourcePage} {items : List NewBatchItem}
    (h : w.stage = .materializing page items) :
    w.work s = (w.batch.maxItems + 6) * (w.batch.allowance - 1) + 4 +
      (page.items.length - items.length) := by
  simp only [work, h]

-- What other users of the store do does not give the worker more to do.
theorem allowance_le (hg : s.Proceeds s') (hb : s.batches.get? w.batch.id = some b) :
    w.allowance s' ≤ w.allowance s := by
  have ⟨b', hb', hl⟩ := hg _ _ hb
  simp only [allowance]
  split
  case h_4 => simpa only [hb, hb', Option.elim_some] using hl.allowance_le
  all_goals exact Nat.le_refl _

theorem work_le (hg : s.Proceeds s') (hb : s.batches.get? w.batch.id = some b) :
    w.work s' ≤ w.work s := by
  have ⟨b', hb', hl⟩ := hg _ _ hb
  simp only [work]
  split
  case h_4 =>
    simp only [hb, hb', Option.elim_some, add_le_add_iff_right]
    exact Nat.mul_le_mul_left _ hl.allowance_le
  all_goals exact Nat.le_refl _

-- A step that its worker pays for.
structure Spends (s : Store) (w : Worker) (answer : Answer) (s' : Store) (w' : Worker) : Prop where
  id       : w'.batch.id = w.batch.id
  proceeds : s.Proceeds s'
  leads    : ∃ b', s'.batches.get? w'.batch.id = some b' ∧ w'.batch.Leads b'
  checked  : w'.Checked
  commits  : (if w.commits answer then 1 else 0) + w'.allowance s' ≤ w.allowance s
  awaits   : (if w.awaits answer then 1 else 0) + w'.work s' ≤ w.work s

theorem one_le_allowance (h : w.stage = .renewing ∨ w.stage = .fetching ∨
    ∃ page items, w.stage = .materializing page items) : 1 ≤ w.allowance s := by
  rcases h with h | h | ⟨_, _, h⟩ <;> simpa [allowance, h] using w.batch.one_le_allowance

theorem four_le_work (h : w.stage = .renewing ∨ w.stage = .fetching ∨
    ∃ page items, w.stage = .materializing page items) : 4 ≤ w.work s := by
  have ha := w.batch.one_le_allowance
  have hm : w.batch.maxItems + 6 ≤ (w.batch.maxItems + 6) * w.batch.allowance :=
    Nat.le_mul_of_pos_right _ ha
  rcases h with h | h | ⟨_, _, h⟩ <;> simp only [work, h] <;> omega

namespace Spends

variable {answer : Answer}

-- The worker gives its batch up or waits to fail it.
theorem ends (hb : s'.batches.get? w.batch.id = some b) (hl : w.batch.Leads b) (hg : s.Proceeds s')
    (hk : w.Checked)
    (he : w'.batch = w.batch) (hs : w'.stage = .done ∨ ∃ e, w'.stage = .failing e)
    (hc : (if w.commits answer then 1 else 0) ≤ w.allowance s) (hw : 2 ≤ w.work s) :
    Spends s w answer s' w' where
  id       := he ▸ rfl
  proceeds := hg
  leads    := ⟨b, he ▸ hb, he ▸ hl⟩
  checked  := by
    refine ⟨he ▸ hk.count, fun page items h => ?_⟩
    rcases hs with hs | ⟨_, hs⟩ <;> simp [hs] at h
  commits  := by
    have hx : w'.allowance s' = 0 := by rcases hs with hs | ⟨_, hs⟩ <;> simp [allowance, hs]
    simpa [hx] using hc
  awaits   := by
    have hx : w'.work s' ≤ 1 := by rcases hs with hs | ⟨_, hs⟩ <;> simp [work, hs]
    split <;> omega

theorem abort_stage {e : StoreError} :
    (w.abort e).stage = .done ∨ ∃ e', (w.abort e).stage = .failing e' := by
  cases e
  case panicked => exact .inl rfl
  all_goals exact .inr ⟨_, rfl⟩

theorem renew (hb : s.batches.get? w.batch.id = some b) (hl : w.batch.Leads b)
    (hk : w.Checked) (l : s.core.Linked) (hs : w.stage = .renewing) :
    Spends s w .reached (w.renew s now).1 (w.renew s now).2 := by
  have hg : s.Proceeds (s.exec <| .renewCollectionLease w.batch.id w.leaseToken
      collectionLeaseSeconds now) := .exec l (by simp [Op.writes])
  have hc : w.commits .reached = false := by simp [Worker.commits, hs]
  have hw : 4 ≤ w.work s := four_le_work <| .inl hs
  obtain ⟨b', hb', hl'⟩ := hg _ _ hb
  simp only [Store.exec] at hg hb'
  simp only [Worker.renew]
  split
  case h_1 e _ => exact .ends hb hl .refl hk abort_batch abort_stage (by simp [hc]) (by omega)
  case h_2 s' hr =>
    rw [hr] at hg hb'
    have ha := w.batch.one_le_allowance
    have hm : w.batch.maxItems + 6 ≤ (w.batch.maxItems + 6) * w.batch.allowance :=
      Nat.le_mul_of_pos_right _ ha
    constructor
    case id => rfl
    case proceeds => exact hg
    case leads => exact ⟨b', hb', hl.trans hl'⟩
    case checked => exact ⟨hk.count, fun _ _ h => by cases h⟩
    case commits => simp [hc, allowance, hs]
    case awaits =>
      simp only [work, hs]
      split <;> omega
  case h_3 s' hr =>
    rw [hr] at hg hb'
    exact .ends hb' (hl.trans hl') hg hk rfl (.inl rfl) (by simp [hc]) (by omega)

theorem validateSourcePage_ok {page page' : SourcePage} {cursor snapshot : Option String}
    {pageSize : Nat} (h : validateSourcePage page cursor snapshot pageSize = .ok page') :
    page' = page ∧ (page.nextCursor.isSome → page.items ≠ []) := by
  simp only [validateSourcePage] at h
  repeat' split at h
  all_goals cases h
  case _ hn => exact ⟨rfl, by simp [hn]⟩
  case _ hc =>
    refine ⟨rfl, fun _ he => hc ?_⟩
    simp [he]

theorem fetch (hb : s.batches.get? w.batch.id = some b) (hl : w.batch.Leads b)
    (hk : w.Checked) {page : SourcePage} (hs : w.stage = .fetching) :
    Spends s w (.fetched page) s (w.fetch s cipher page) := by
  have hw : 4 ≤ w.work s := four_le_work <| .inr <| .inl hs
  have hfail (e : IngestionError) : Spends s w (.fetched page) s (w.fail e) :=
    .ends hb hl .refl hk rfl (.inr ⟨e, rfl⟩) (by simp [Worker.commits]) (by omega)
  simp only [Worker.fetch]
  split
  case h_1 | h_2 => exact hfail _
  case h_3 =>
    split
    case h_1 => exact hfail _
    case h_2 page' hv =>
      obtain ⟨rfl, hn⟩ := validateSourcePage_ok hv
      split
      case isTrue => exact hfail _
      case isFalse he =>
        split
        case isTrue => exact hfail _
        case isFalse =>
          simp only [exceedsItemLimit, Bool.or_eq_true, decide_eq_true_eq, Bool.and_eq_true, not_or,
            not_lt, not_and, not_le] at he
          have ha := w.batch.one_le_allowance
          have hm : (w.batch.maxItems + 6) * (w.batch.allowance - 1) + (w.batch.maxItems + 6) =
              (w.batch.maxItems + 6) * w.batch.allowance := by
            rw [← Nat.mul_succ, Nat.succ_eq_add_one, Nat.sub_add_cancel ha]
          constructor
          case id => rfl
          case proceeds => exact .refl
          case leads => exact ⟨b, hb, hl⟩
          case checked =>
            refine ⟨hk.count, fun page items h => ?_⟩
            cases h
            exact ⟨he.left, fun hx => ⟨hn hx, he.right hx⟩⟩
          case commits => simp [Worker.commits, allowance, hs]
          case awaits =>
            have hp := hk.count
            have hx := he.left
            simp only [work, hs, List.length_nil]
            split <;> omega

theorem materialize (hb : s.batches.get? w.batch.id = some b) (hl : w.batch.Leads b)
    (hk : w.Checked) (l : s.core.Linked) {page : SourcePage} {items : List NewBatchItem}
    {digests : RawItemDigests} {draft : ItemDraft} (hs : w.stage = .materializing page items)
    (hi : items.length < page.items.length) :
    Spends s w (.drafted digests draft) (w.materialize s now page items digests draft).1
      (w.materialize s now page items digests draft).2 := by
  have hw : 4 ≤ w.work s := four_le_work <| .inr <| .inr ⟨page, items, hs⟩
  simp only [Worker.materialize]
  split
  case h_1 =>
    exact .ends hb hl .refl hk abort_batch abort_stage (by simp [Worker.commits]) (by omega)
  case h_2 item s' hm =>
    have hg : s.Proceeds s' := by
      rcases materializeItem_store hm with rfl | ⟨_, _, rfl⟩
      case inl => exact .refl
      case inr => exact .exec l (by simp [Op.writes])
    obtain ⟨b', hb', hl'⟩ := hg _ _ hb
    constructor
    case id => rfl
    case proceeds => exact hg
    case leads => exact ⟨b', hb', hl.trans hl'⟩
    case checked =>
      refine ⟨hk.count, fun page' items' h => ?_⟩
      cases h
      exact hk.page page items hs
    case commits => simp [Worker.commits, allowance, hs]
    case awaits =>
      simp only [work, hs, List.length_append, List.length_singleton]
      split <;> omega

theorem commit (hb : s.batches.get? w.batch.id = some b) (hl : w.batch.Leads b)
    (hk : w.Checked) {page : SourcePage} {items : List NewBatchItem}
    (hs : w.stage = .materializing page items) (hi : page.items.length ≤ items.length) :
    Spends s w .reached (w.commit s cipher now page items).1
      (w.commit s cipher now page items).2 := by
  have hst : w.stage = .renewing ∨ w.stage = .fetching ∨
    ∃ page items, w.stage = .materializing page items := .inr <| .inr ⟨page, items, hs⟩
  have hw : 4 ≤ w.work s := four_le_work hst
  have hc : (if w.commits .reached then 1 else 0) ≤ w.allowance s := by
    have := one_le_allowance (s := s) hst
    split <;> omega
  obtain ⟨hle, hnext⟩ := hk.page page items hs
  have hn : (w.commitOf cipher page items).isFinal ∨ (w.commitOf cipher page items).items ≠ [] := by
    cases hp : page.nextCursor
    case none => exact .inl <| by simp [commitOf, hp]
    case some =>
      have hx := List.length_pos_iff.mpr (hnext <| by simp [hp]).left
      exact .inr <| List.length_pos_iff.mp <| hx.trans_le hi
  have hg : s.Proceeds ((s.commitCollectionPage (w.commitOf cipher page items) now).persisted s) :=
    Store.commitCollectionPage_proceeds hn
  simp only [Worker.commit]
  split
  case h_1 => exact .ends hb hl .refl hk abort_batch abort_stage hc (by omega)
  case h_2 s' hr =>
    rw [hr] at hg
    obtain ⟨b', hb', hl'⟩ := hg _ _ hb
    exact .ends hb' (hl.trans hl') hg hk rfl (.inl rfl) hc (by omega)
  case h_3 outcome s' hne hr =>
    obtain ⟨b', hb', g⟩ := Store.further_of_commit hr hne hb hl.order
    rw [hr] at hg
    obtain ⟨b₁, hb₁, hl'⟩ := hg _ _ hb
    have hb₁ : s'.batches.get? w.batch.id = some b₁ := hb₁
    obtain rfl : b₁ = b' := Option.some.inj <| hb₁.symm.trans hb'
    have hl := hl.trans hl'
    have hlt (hp : page.nextCursor.isSome) : b₁.allowance < w.batch.allowance := by
      obtain ⟨hne, hlt⟩ := hnext hp
      have hpos := List.length_pos_iff.mpr hne
      exact hl.allowance_lt g (by omega)
    constructor
    case id => rfl
    case proceeds => exact hg
    case leads => exact ⟨b₁, hb₁, hl⟩
    case checked => exact ⟨hk.count, fun _ _ h => by cases h⟩
    case commits =>
      cases hp : page.nextCursor
      case none => simpa [commitOf, hp, allowance] using hc
      case some =>
        have hx := hlt (by simp [hp])
        rw [allowance_materializing hs]
        simp only [commitOf, hp, Option.isNone_some, allowance, hb₁, Option.elim_some]
        split <;> omega
    case awaits =>
      rw [work_materializing hs]
      cases hp : page.nextCursor
      case none =>
        simp only [commitOf, hp, Option.isNone_none, work]
        split <;> omega
      case some =>
        have hx := Nat.le_sub_one_of_lt <| hlt (by simp [hp])
        have hm := Nat.mul_le_mul_left (w.batch.maxItems + 6) hx
        simp only [commitOf, hp, Option.isNone_some, work, hb₁, Option.elim_some]
        split <;> omega

theorem reload (hb : s.batches.get? w.batch.id = some b) (hl : w.batch.Leads b)
    (hn : 0 ≤ b.itemCount) {isFinal : Bool} (hs : w.stage = .reloading isFinal) :
    Spends s w .reached s (w.reload s isFinal) := by
  have hk : b.id = w.batch.id := Table.key_of_get? hb
  have ha := b.one_le_allowance
  simp only [Worker.reload, hb]
  constructor
  case id => exact hk
  case proceeds => exact .refl
  case leads => exact ⟨b, hk ▸ hb, .refl⟩
  case checked => cases isFinal <;> exact ⟨hn, fun _ _ h => by cases h⟩
  case commits => cases isFinal <;> simp [Worker.commits, allowance, hs, hb]
  case awaits =>
    cases isFinal <;> simp [Worker.awaits, work, hs, hb, hl.maxItems, Nat.add_comm]

theorem finalize (hb : s.batches.get? w.batch.id = some b) (hl : w.batch.Leads b)
    (hk : w.Checked) (l : s.core.Linked) {newId : Uuid → Uuid} (hs : w.stage = .finalizing) :
    Spends s w (.named newId) (w.finalize s now newId).1 (w.finalize s now newId).2 := by
  have hw : 2 ≤ w.work s := by simp [work, hs]
  have hg : s.Proceeds (s.exec (.finalizeBatch w.batch.id w.leaseToken newId now)) :=
    .exec l (by simp [Op.writes])
  obtain ⟨b', hb', hl'⟩ := hg _ _ hb
  simp only [Store.exec] at hg hb'
  simp only [Worker.finalize]
  split
  case h_1 => exact .ends hb hl .refl hk abort_batch abort_stage (by simp [Worker.commits]) hw
  case h_2 hr =>
    rw [hr] at hg hb'
    exact .ends hb' (hl.trans hl') hg hk rfl (.inl rfl) (by simp [Worker.commits]) hw

theorem idle {answer : Answer} (hb : s.batches.get? w.batch.id = some b) (hl : w.batch.Leads b)
    (hk : w.Checked) (ha : w.awaits answer = false) (hc : w.commits answer = false) :
    Spends s w answer s w where
  id       := rfl
  proceeds := .refl
  leads    := ⟨b, hb, hl⟩
  checked  := hk
  commits  := by simp [hc]
  awaits   := by simp [ha]

-- The last step of a worker that fails its batch.
theorem gone {answer : Answer} {e : IngestionError} (hb : s.batches.get? w.batch.id = some b)
    (hl : w.batch.Leads b) (hk : w.Checked) (hg : s.Proceeds s') (hs : w.stage = .failing e) :
    Spends s w answer s' w.finish := by
  have ⟨b', hb', hl'⟩ := hg _ _ hb
  constructor
  case id => rfl
  case proceeds => exact hg
  case leads => exact ⟨b', hb', hl.trans hl'⟩
  case checked => exact ⟨hk.count, fun _ _ h => nomatch h⟩
  case commits =>
    have hc : w.commits answer = false := by cases answer <;> simp [Worker.commits, hs]
    simp [hc, finish, allowance]
  case awaits =>
    simp only [work, hs, finish]
    split <;> omega

theorem two_le_work (hb : s.batches.get? w.batch.id = some b) (hd : w.stage ≠ .done)
    (hf : ∀ e, w.stage ≠ .failing e) : 2 ≤ w.work s := by
  have ha := b.one_le_allowance
  have hm := Nat.le_mul_of_pos_right (w.batch.maxItems + 6) ha
  cases hs : w.stage
  case renewing => exact (four_le_work <| .inl hs).trans' (by omega)
  case fetching => exact (four_le_work <| .inr <| .inl hs).trans' (by omega)
  case materializing page items =>
    exact (four_le_work <| .inr <| .inr ⟨page, items, hs⟩).trans' (by omega)
  case reloading isFinal =>
    cases isFinal
    case false =>
      simp only [work, hs, hb, Option.elim_some]
      omega
    case true => simp [work, hs]
  case finalizing => simp [work, hs]
  case failing e => exact absurd hs (hf e)
  case done => exact absurd hs hd

theorem step (hb : s.batches.get? w.batch.id = some b) (hl : w.batch.Leads b) (hk : w.Checked)
    (hn : 0 ≤ b.itemCount) (l : s.core.Linked) (answer : Answer) :
    Spends s w answer (w.step s cipher now answer).1 (w.step s cipher now answer).2 := by
  cases answer
  case failed e =>
    simp only [Worker.step]
    split
    case h_1 hs =>
      have he : w.finish = w := by
        cases w
        simp_all [finish]
      rw [he]
      exact .idle hb hl hk (by simp [Worker.awaits, hs]) rfl
    case h_2 hs => exact .gone hb hl hk .refl hs
    case h_3 hd hf =>
      exact .ends hb hl .refl hk rfl (.inr ⟨e, rfl⟩) (by simp [Worker.commits]) <|
        two_le_work hb hd hf
  case fetched page =>
    simp only [Worker.step]
    split
    case h_1 hs => exact .fetch hb hl hk hs
    case h_2 hs => exact .idle hb hl hk (by cases hx : w.stage <;> simp_all [Worker.awaits]) rfl
  case drafted digests draft =>
    simp only [Worker.step]
    split
    case h_1 hs =>
      split
      case isTrue hi => exact .materialize hb hl hk l hs hi
      case isFalse hi => exact .idle hb hl hk (by simpa [Worker.awaits, hs] using hi) rfl
    case h_2 hs => exact .idle hb hl hk (by cases hx : w.stage <;> simp_all [Worker.awaits]) rfl
  case named newId =>
    simp only [Worker.step]
    split
    case h_1 hs => exact .finalize hb hl hk l hs
    case h_2 hs => exact .idle hb hl hk (by cases hx : w.stage <;> simp_all [Worker.awaits]) rfl
  case reached =>
    simp only [Worker.step]
    split
    case h_1 hs => exact .renew hb hl hk l hs
    case h_2 hs =>
      split
      case isTrue hi =>
        exact .idle hb hl hk (by simpa [Worker.awaits, hs] using hi)
          (by simpa [Worker.commits, hs] using hi)
      case isFalse hi => exact .commit hb hl hk hs (not_lt.mp hi)
    case h_3 hs => exact .reload hb hl hn hs
    case h_4 hs => exact .gone hb hl hk (.exec l (by simp [Op.writes])) hs
    case h_5 h₁ h₂ h₃ h₄ =>
      exact .idle hb hl hk (by cases hx : w.stage <;> simp_all [Worker.awaits])
        (by cases hx : w.stage <;> simp_all [Worker.commits])

end Spends

end Worker

end Scheduler
