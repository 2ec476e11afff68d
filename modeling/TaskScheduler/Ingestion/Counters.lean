import TaskScheduler.Ingestion.Chain

namespace Scheduler

-- The groups in which a batch counts its items while it collects them.
inductive ItemClass
  | any
  | ready
  | invalid
  | poisoned
  | held
  deriving DecidableEq, Repr

def ItemClass.has : ItemClass → BatchItemState → Bool
  | any, _       => true
  | ready, st    => st = .ready
  | invalid, st  => st = .invalid
  | poisoned, st => st = .poisoned || st = .suspectedPoison
  | held, st     => st = .held

-- The row that `insert_batch_item` writes.
def NewBatchItem.row (item : NewBatchItem) (batchId : Uuid) (now : Time) : BatchItem where
  id                    := item.id
  batchId
  itemIndex             := item.itemIndex
  providerKeyHmac       := item.providerKeyHmac
  encryptedSnapshot     := item.encryptedSnapshot
  parametersDigest      := item.parametersDigest
  maxAttempts           := item.maxAttempts
  initialBackoffSeconds := item.initialBackoffSeconds
  backoffCapSeconds     := item.backoffCapSeconds
  state                 := item.state
  failureCode           := item.failureCode
  runId                 := none
  createdAt             := now

-- What an item is known by, apart from its identifier.
def BatchItem.identity (i : BatchItem) : Uuid × String × String :=
  (i.batchId, i.providerKeyHmac, i.parametersDigest)

namespace PageCounts

variable {counts counts' : PageCounts} {st : BatchItemState}

def of (counts : PageCounts) : ItemClass → Int
  | .any      => counts.total
  | .ready    => counts.ready
  | .invalid  => counts.invalid
  | .poisoned => counts.poisoned
  | .held     => counts.held

theorem observe_of (h : counts.observe st = some counts') (k : ItemClass) :
    counts'.of k = counts.of k + (k.has st).toNat := by
  cases st <;> cases h <;> cases k <;> simp [of, ItemClass.has]

theorem reclassifyAsInvalid_of (h : counts.reclassifyAsInvalid st = some counts') (k : ItemClass) :
    counts'.of k + (k.has st).toNat = counts.of k + (k.has .invalid).toNat := by
  cases st <;> cases h <;> cases k <;> simp [of, ItemClass.has]

end PageCounts

def Batch.countOf (b : Batch) : ItemClass → Int
  | .any      => b.itemCount
  | .ready    => b.validItemCount
  | .invalid  => b.invalidItemCount
  | .poisoned => b.poisonedItemCount
  | .held     => b.heldItemCount

-- The items of a batch are counted by `counts`, and items with the same key are all invalid.
structure Tallied (items : List BatchItem) (counts : ItemClass → Int) : Prop where
  counts  : ∀ k, counts k = items.countP (k.has ·.state)
  pending : ∀ i ∈ items, i.state.isExecution = false
  keys    : ∀ i ∈ items, ∀ j ∈ items, i.id ≠ j.id → i.providerKeyHmac = j.providerKeyHmac →
    i.state = .invalid ∧ i.parametersDigest = j.parametersDigest

namespace Tallied

variable {items : List BatchItem} {counts counts' : ItemClass → Int}

theorem nil : Tallied [] fun _ => 0 where
  counts  := fun _ => rfl
  pending := List.forall_mem_nil _
  keys    := List.forall_mem_nil _

-- Every item is in one of the four groups.
theorem sum (h : Tallied items counts) :
    counts .ready + counts .invalid + counts .poisoned + counts .held = counts .any := by
  have hp := h.pending
  simp only [h.counts]
  clear h
  induction items
  case nil => rfl
  case cons i items hi =>
    have ⟨hs, hp⟩ := List.forall_mem_cons.mp hp
    have hi := hi hp
    simp only [List.countP_cons]
    generalize i.state = st at hs
    cases st
    case queued | running | succeeded | failed | cancelled => contradiction
    all_goals
      simp only [ItemClass.has, reduceCtorEq, decide_true, decide_false, Bool.or_true, Bool.or_false,
        Bool.false_eq_true, if_true, if_false] at hi ⊢
      push_cast
      omega

theorem digest (h : Tallied items counts) (nd : (items.map BatchItem.id).Nodup) {i j : BatchItem}
    (hi : i ∈ items) (hj : j ∈ items) (hk : i.providerKeyHmac = j.providerKeyHmac) :
    i.parametersDigest = j.parametersDigest := by
  by_cases he : i.id = j.id
  case pos => rw [List.inj_on_of_nodup_map nd hi hj he]
  case neg => exact (h.keys i hi j hj he hk).right

theorem append (h : Tallied items counts) {row : BatchItem}
    (hc : ∀ k, counts' k = counts k + (k.has row.state).toNat) (hs : row.state.isExecution = false)
    (hk : ∀ i ∈ items, i.providerKeyHmac = row.providerKeyHmac →
      i.state = .invalid ∧ row.state = .invalid ∧ i.parametersDigest = row.parametersDigest) :
    Tallied (items ++ [row]) counts' := by
  constructor
  case counts =>
    intro k
    rw [hc, h.counts, List.countP_append, List.countP_singleton]
    cases k.has row.state <;> simp
  case pending =>
    intro i hi
    obtain hi | hi := List.mem_append.mp hi
    case inl => exact h.pending i hi
    case inr => exact List.mem_singleton.mp hi ▸ hs
  case keys =>
    intro i hi j hj hn he
    obtain hi | hi := List.mem_append.mp hi <;> obtain hj | hj := List.mem_append.mp hj
    case inl.inl => exact h.keys i hi j hj hn he
    case inl.inr =>
      cases List.mem_singleton.mp hj
      have ⟨h₁, _, h₂⟩ := hk i hi he
      exact ⟨h₁, h₂⟩
    case inr.inl =>
      cases List.mem_singleton.mp hi
      have ⟨_, h₁, h₂⟩ := hk j hj he.symm
      exact ⟨h₁, h₂.symm⟩
    case inr.inr =>
      cases List.mem_singleton.mp hi
      cases List.mem_singleton.mp hj
      contradiction

-- Marking an item as invalid, as `admitItem` does it with a duplicate.
theorem invalidate (h : Tallied items counts) (nd : (items.map BatchItem.id).Nodup) {d : BatchItem}
    (hd : d ∈ items) {code : Option String}
    (hc : ∀ k, counts' k + (k.has d.state).toNat = counts k + (k.has .invalid).toNat) :
    Tallied (Keyed.modify items d.id ({ · with state := .invalid, failureCode := code })) counts' := by
  constructor
  case counts =>
    intro k
    have hm : (Keyed.modify items d.id _).countP (k.has ·.state) + (k.has d.state).toNat =
        items.countP (k.has ·.state) + (k.has .invalid).toNat :=
      Keyed.countP_modify nd hd rfl (k.has ·.state) (f := ({ · with state := .invalid, failureCode := code }))
    have hk := hc k
    rw [h.counts] at hk
    omega
  case pending =>
    refine Keyed.forall_mem_modify.mpr fun i hi => ?_
    split
    case isTrue => rfl
    case isFalse => exact h.pending i hi
  case keys =>
    have keep {β : Type} (g : BatchItem → β)
        (hg : ∀ i : BatchItem, g { i with state := .invalid, failureCode := code } = g i) (i : BatchItem) :
        g (if Keyed.key i = d.id then { i with state := .invalid, failureCode := code } else i) = g i := by
      split
      case isTrue => exact hg i
      case isFalse => rfl
    refine Keyed.forall_mem_modify.mpr fun i hi => Keyed.forall_mem_modify.mpr fun j hj => ?_
    simp only [keep BatchItem.id fun _ => rfl, keep BatchItem.providerKeyHmac fun _ => rfl,
      keep BatchItem.parametersDigest fun _ => rfl]
    intro hn he
    have ⟨hs, hd⟩ := h.keys i hi j hj hn he
    refine ⟨?_, hd⟩
    split
    case isTrue => rfl
    case isFalse => exact hs

end Tallied

namespace Store

variable {s s' : Store} {batchId : Uuid} {now : Time} {counts : PageCounts} {base : ItemClass → Int}
  {page : CommitCollectionPage}

-- The items of a batch and what has been counted so far, in the middle of a page.
def Counting (s : Store) (batchId : Uuid) (base : ItemClass → Int) (counts : PageCounts) : Prop :=
  Tallied (s.core.itemsOf batchId) fun k => base k + counts.of k

theorem itemsOf_nodup : ((s.core.itemsOf batchId).map BatchItem.id).Nodup :=
  Table.select_nodup

theorem itemsOf_update {d : Uuid} {f : BatchItem → BatchItem} {hf} (hb : ∀ i, (f i).batchId = i.batchId := by exact fun _ => rfl) :
    Core.itemsOf (Store.core { s with batchItems := s.batchItems.update (·.id = d) f hf }) batchId =
      Keyed.modify (s.core.itemsOf batchId) d f := by
  simp only [Core.itemsOf, core_batchItems, Keyed.modify]
  rw [Table.select_update fun i => by rw [hb]]
  simp only [decide_eq_true_eq]
  rfl

-- The item that `admitItem` finds, if any.
theorem head?_sameKey {key : String} {o : Option BatchItem}
    (h : (s.itemsInOrder fun i => i.batchId = batchId && i.providerKeyHmac = key).head? = o) :
    match o with
    | none   => ∀ i ∈ s.core.itemsOf batchId, i.providerKeyHmac ≠ key
    | some d => d ∈ s.core.itemsOf batchId ∧ d.providerKeyHmac = key := by
  cases o
  case none =>
    intro i hi hk
    have ⟨hm, hb⟩ := Table.mem_select.mp hi
    have hm : i ∈ s.itemsInOrder fun i => i.batchId = batchId && i.providerKeyHmac = key :=
      (List.mem_insertionSort _).mpr <| Table.mem_select.mpr ⟨hm, by simp_all⟩
    simp [List.head?_eq_none_iff.mp h] at hm
  case some d =>
    have hm := List.mem_of_mem_head? h
    simp_all [itemsInOrder, Core.itemsOf, List.mem_insertionSort]

theorem admitItem_item {item r} (h : s.admitItem batchId counts item = .ok r) :
    r.2.2.providerKeyHmac = item.providerKeyHmac ∧ r.2.2.parametersDigest = item.parametersDigest := by
  simp only [admitItem] at h
  repeat' split at h
  all_goals cases h
  all_goals exact ⟨rfl, rfl⟩

-- After the duplicate check every item with the key of the new one is invalid, and so is the new one.
theorem Counting.admitItem {item r} (h : s.Counting batchId base counts)
    (ha : s.admitItem batchId counts item = .ok r) :
    r.1.Counting batchId base r.2.1 ∧
    ∀ i ∈ r.1.core.itemsOf batchId, i.providerKeyHmac = item.providerKeyHmac →
      i.state = .invalid ∧ r.2.2.state = .invalid ∧ i.parametersDigest = item.parametersDigest := by
  simp only [Store.admitItem] at ha
  split at ha
  case h_1 hn =>
    cases ha
    exact ⟨h, fun i hi hk => absurd hk <| head?_sameKey hn i hi⟩
  case h_2 d hd =>
    obtain ⟨hm, hk⟩ := head?_sameKey hd
    split at ha
    case isTrue => contradiction
    case isFalse he =>
      -- All items with the key agree with the first one.
      have hx (i) (hi : i ∈ s.core.itemsOf batchId) (hi' : i.providerKeyHmac = item.providerKeyHmac) :
          (i.id = d.id ∨ i.state = .invalid) ∧ i.parametersDigest = item.parametersDigest := by
        constructor
        case left =>
          by_cases hj : i.id = d.id
          case pos => exact .inl hj
          case neg => exact .inr (h.keys i hi d hm hj (hi'.trans hk.symm)).left
        case right =>
          rw [h.digest itemsOf_nodup hi hm (hi'.trans hk.symm)]
          simpa using he
      split at ha
      case isTrue hs =>
        cases ha
        refine ⟨h, fun i hi hi' => ?_⟩
        obtain ⟨ho, hg⟩ := hx i hi hi'
        refine ⟨?_, rfl, hg⟩
        rcases ho with ho | ho
        case inl => exact List.inj_on_of_nodup_map itemsOf_nodup hi hm ho ▸ hs
        case inr => exact ho
      case isFalse =>
        split at ha
        case h_1 => contradiction
        case h_2 counts' hc =>
          cases ha
          refine ⟨?_, ?_⟩
          case refine_1 =>
            rw [Counting, itemsOf_update]
            refine h.invalidate itemsOf_nodup hm fun k => ?_
            have hr := PageCounts.reclassifyAsInvalid_of hc k
            dsimp only
            omega
          case refine_2 =>
            rw [itemsOf_update]
            refine Keyed.forall_mem_modify.mpr fun i hi hi' => ?_
            split at hi'
            case isTrue =>
              simp only [*, if_true]
              exact ⟨trivial, trivial, (hx i hi hi').right⟩
            case isFalse hj =>
              obtain ⟨ho, hg⟩ := hx i hi hi'
              simp only [hj, if_false]
              exact ⟨ho.resolve_left hj, trivial, hg⟩

theorem insertBatchItem_row {item} (h : s.insertBatchItem batchId item now = .ok s') :
    ∃ items, s.batchItems.insert (item.row batchId now) = some items ∧
      s' = { s with batchItems := items } := by
  simp only [insertBatchItem] at h
  repeat' split at h
  all_goals cases h
  case _ hi => exact ⟨_, hi, rfl⟩

theorem itemsOf_insert {item : NewBatchItem} {items : Table BatchItem}
    (h : s.batchItems.insert (item.row batchId now) = some items) :
    Core.itemsOf (Store.core { s with batchItems := items }) batchId =
      s.core.itemsOf batchId ++ [item.row batchId now] := by
  have hb : (item.row batchId now).batchId = batchId := rfl
  simp [Core.itemsOf, Table.select_of_insert h, hb]

-- Once an item is admitted, it can be inserted and counted.
theorem Counting.insertItems {items : List NewBatchItem} {r} (h : s.Counting batchId base counts)
    (hi : insertItems batchId now counts s items = .ok r) : r.1.Counting batchId base r.2 := by
  induction items generalizing s counts
  case nil =>
    cases hi
    exact h
  case cons item items ih =>
    simp only [Store.insertItems] at hi
    repeat' split at hi
    any_goals contradiction
    case _ s₁ counts₁ item₁ ha _ counts₂ ho _ s₂ hb =>
      have ⟨h₁, hx⟩ := h.admitItem ha
      have ⟨hk, hd⟩ := admitItem_item ha
      obtain ⟨rows, hr, rfl⟩ := insertBatchItem_row hb
      refine ih ?_ hi
      rw [Counting, itemsOf_insert hr]
      have hs : item₁.state.isExecution = false := by simpa using PageCounts.observe_isSome ho
      refine h₁.append (fun k => ?_) hs fun i hm he => ?_
      case refine_1 =>
        rw [PageCounts.observe_of ho k, ← Int.add_assoc]
        rfl
      case refine_2 =>
        have ⟨hs, ht, hg⟩ := hx i hm (he.trans hk)
        exact ⟨hs, ht, hg.trans hd.symm⟩

-- The batch has an item with this key and this digest.
def Shows (s : Store) (batchId : Uuid) (key digest : String) : Prop :=
  ∃ i ∈ s.batchItems, i.identity = (batchId, key, digest)

theorem Shows.of_same {key digest : String} (h : s.Shows batchId key digest)
    (hs : Table.Same BatchItem.identity s.batchItems s'.batchItems) : s'.Shows batchId key digest := by
  have ⟨i, hi, hx⟩ := h
  have ⟨j, hj, he⟩ := hs.exists_right hi
  exact ⟨j, hj, he.trans hx⟩

theorem admitItem_same {item r} (h : s.admitItem batchId counts item = .ok r) :
    Table.Same BatchItem.identity s.batchItems r.1.batchItems := by
  obtain hr | ⟨d, -, -, -, hr⟩ := admitItem_eq h
  case inl => exact hr ▸ .refl
  case inr =>
    rw [hr]
    exact .of_update rfl fun _ _ _ => rfl

-- Keys and digests are never taken back, and those of every item of a page are recorded.
theorem insertItems_shows {items : List NewBatchItem} {r} {key digest : String}
    (hi : insertItems batchId now counts s items = .ok r)
    (h : s.Shows batchId key digest ∨
      ∃ item ∈ items, item.providerKeyHmac = key ∧ item.parametersDigest = digest) :
    r.1.Shows batchId key digest := by
  induction items generalizing s counts
  case nil =>
    cases hi
    simpa using h
  case cons item items ih =>
    simp only [Store.insertItems] at hi
    repeat' split at hi
    any_goals contradiction
    case _ s₁ counts₁ item₁ ha _ counts₂ ho _ s₂ hb =>
      obtain ⟨rows, hr, rfl⟩ := insertBatchItem_row hb
      refine ih hi ?_
      rcases h with h | ⟨item', hm, hk, hd⟩
      case inl =>
        have ⟨i, hi, hx⟩ := h.of_same (admitItem_same ha)
        exact .inl ⟨i, (Table.mem_of_insert hr).mpr <| .inl hi, hx⟩
      case inr =>
        cases hm
        case tail hm => exact .inr ⟨item', hm, hk, hd⟩
        case head =>
          have ⟨hk', hd'⟩ := admitItem_item ha
          refine .inl ⟨item₁.row batchId now, (Table.mem_of_insert hr).mpr <| .inr rfl, ?_⟩
          simp only [BatchItem.identity, NewBatchItem.row, Prod.mk.injEq, true_and]
          exact ⟨hk'.trans hk, hd'.trans hd⟩

-- A page leaves the items of other batches alone.
theorem Collects.select_ne {items items' : Table BatchItem} {id : Uuid}
    (h : Core.Collects batchId items items') (hn : id ≠ batchId) :
    items'.select (·.batchId = id) = items.select (·.batchId = id) := by
  induction h
  case refl => rfl
  case add hb _ _ hi _ ih => simp [ih, Table.select_of_insert hi, hb, hn.symm]
  case invalidate d _ hm hb _ _ ih =>
    rw [ih]
    refine Table.select_of_update rfl fun i hi hp => ?_
    obtain rfl : i = d := Table.key_injOn hi hm (of_decide_eq_true hp)
    simp [hb, hn.symm]

-- Items belong to batches, and while a batch collects, its counters agree with its items.
structure Counted (s : Store) : Prop where
  owned   : ∀ i ∈ s.batchItems, ∃ b ∈ s.batches, b.id = i.batchId
  tallied : ∀ b ∈ s.batches, b.state.isIngesting → Tallied (s.core.itemsOf b.id) b.countOf

namespace Counted

theorem empty : Store.empty.Counted where
  owned   := fun _ h => absurd h Table.not_mem_empty
  tallied := fun _ h => absurd h Table.not_mem_empty

theorem calm (h : s.Counted) (hc : s.core.Calm s'.core) : s'.Counted where
  owned i' hi' := by
    have ⟨i, hi, he⟩ := hc.items.exists_left hi'
    have ⟨b, hb, hk⟩ := h.owned i hi
    have ⟨b', hb', hx⟩ := hc.batches.exists_right hb
    exact ⟨b', hb', (congrArg Progress.id hx).trans <| hk.trans he⟩
  tallied b' hb' hs' := by
    have ⟨b, hb, hk, hs, hp, hi⟩ := hc.ingesting b' hb' hs'
    have ⟨b₁, hb₁, hx⟩ := hc.batches.exists_left hb'
    obtain rfl : b₁ = b := Table.key_injOn hb₁ hb <| (congrArg Progress.id hx).trans hk.symm
    have he : b'.countOf = b₁.countOf := by
      funext k
      cases k
      case any => exact (congrArg Progress.itemCount hx).symm
      case ready => exact (congrArg Progress.validItemCount hx).symm
      case invalid => exact (congrArg Progress.invalidItemCount hx).symm
      case poisoned => exact hp
      case held => exact (congrArg Progress.heldItemCount hx).symm
    rw [hi, ← hk, he]
    exact h.tallied b₁ hb hs

theorem opens (h : s.Counted) (ho : s.Opens s') : s'.Counted := by
  rcases ho with hc | ⟨new, triggerId, now, batches, hi, hc⟩
  case inl => exact h.calm <| hc ▸ .refl
  case inr =>
    have hb : s'.batches = batches := congrArg Core.batches hc
    have hx : s'.batchItems = s.batchItems := congrArg Core.batchItems hc
    have hm {b} : b ∈ s'.batches ↔ b ∈ s.batches ∨ b = new.row triggerId now := hb ▸ Table.mem_of_insert hi
    constructor
    case owned =>
      intro i hi
      have ⟨b, hb, hk⟩ := h.owned i (hx ▸ hi)
      exact ⟨b, hm.mpr <| .inl hb, hk⟩
    case tallied =>
      intro b hb hs
      have he : s'.core.itemsOf b.id = s.core.itemsOf b.id := by simp only [Core.itemsOf, core_batchItems, hx]
      rw [he]
      obtain hb | rfl := hm.mp hb
      case inl => exact h.tallied b hb hs
      case inr =>
        have hn : s.core.itemsOf (new.row triggerId now).id = [] := by
          refine List.filter_eq_nil_iff.mpr fun i hi' hk => ?_
          have ⟨b, hb, hk'⟩ := h.owned i hi'
          exact Table.get?_eq_none.mp (Table.get?_key_of_insert hi) b hb <| hk'.trans (of_decide_eq_true hk)
        rw [hn]
        have hz : (new.row triggerId now).countOf = fun _ => 0 := by
          funext k
          cases k <;> rfl
        exact hz ▸ .nil

theorem applies (h : s.Counted) (ha : s.Applies page now s') : s'.Counted := by
  obtain ⟨batch, pages, items, counts, hb, ha, -, hi, hb', -, hx⟩ := ha
  have hk : batch.id = page.batchId := Table.key_of_get? hb
  have helse {id} (hn : id ≠ page.batchId) : s'.core.itemsOf id = s.core.itemsOf id := by
    obtain ⟨_, hc, he⟩ := insertItems_eq hi
    cases congrArg Store.batchItems he
    simpa only [Core.itemsOf, core_batchItems, hx] using Collects.select_ne hc hn
  constructor
  case owned =>
    intro i hm
    have ho : ∃ b ∈ s.batches, b.id = i.batchId := by
      by_cases hn : i.batchId = page.batchId
      case pos => exact ⟨batch, Table.mem_of_get? hb, hk.trans hn.symm⟩
      case neg =>
        have hm : i ∈ s'.core.itemsOf i.batchId := Table.mem_select.mpr ⟨hm, by simp⟩
        rw [helse hn] at hm
        exact h.owned i (Table.mem_select.mp hm).left
    obtain ⟨b, hm, he⟩ := ho
    refine ⟨_, hb' ▸ Table.mem_update_of_mem hm, ?_⟩
    split <;> exact he
  case tallied =>
    rw [hb']
    refine List.forall_mem_map.mpr fun b hm hs => ?_
    by_cases he : b.id = page.batchId
    case neg =>
      simp only [he, decide_false, Bool.false_eq_true, if_false] at hs ⊢
      exact helse he ▸ h.tallied b hm hs
    case pos =>
      obtain rfl : b = batch := Table.key_injOn hm (Table.mem_of_get? hb) (he.trans hk.symm)
      simp only [he, decide_true, if_true] at hs ⊢
      have hc : s.Counting page.batchId b.countOf {} := by
        have ht := h.tallied b hm hs
        rw [he] at ht
        have hz : (fun k => b.countOf k + PageCounts.of {} k) = b.countOf := by
          funext k
          cases k <;> simp [PageCounts.of]
        rwa [Counting, hz]
      have hf := hc.insertItems (s := { s with batchCollectionPages := pages }) hi
      have hz : (b.advance page counts).countOf = fun k => b.countOf k + counts.of k := by
        funext k
        cases k <;> rfl
      have hj : s'.core.itemsOf page.batchId = items.select (·.batchId = page.batchId) := by
        simp only [Core.itemsOf, core_batchItems, hx]
      rw [hz, (he ▸ rfl : (b.advance page counts).id = page.batchId), hj]
      exact hf

theorem exec (h : s.Counted) (l : s.core.Linked) (op : Op) : (s.exec op).Counted := by
  cases exec_ingests l op
  case calm _ hc => exact h.calm hc
  case opens _ ho => exact h.opens ho
  case applies ha => exact h.applies ha

end Counted

theorem Reachable.counted (h : s.Reachable) : s.Counted :=
  And.right <| Machine.Reachable.invariant (I := fun s => s.core.Linked ∧ s.Counted)
    (fun _ op hi _ => ⟨linked_exec hi.left op, hi.right.exec hi.left op⟩) h ⟨linked_empty, .empty⟩

-- The page repeats a key, of an item that exists or of its own, with another digest.
def ConflictsWith (s : Store) (page : CommitCollectionPage) : Prop :=
  ∃ item ∈ page.items,
    (∃ i ∈ s.core.itemsOf page.batchId, i.providerKeyHmac = item.providerKeyHmac ∧
      i.parametersDigest ≠ item.parametersDigest) ∨
    ∃ item' ∈ page.items, item'.providerKeyHmac = item.providerKeyHmac ∧
      item'.parametersDigest ≠ item.parametersDigest

-- Items of a collecting batch with the same key show the same digest.
theorem Counted.digest (h : s.Counted) {b : Batch} (hb : b ∈ s.batches) (hs : b.state.isIngesting)
    {key d₁ d₂ : String} (h₁ : s.Shows b.id key d₁) (h₂ : s.Shows b.id key d₂) : d₁ = d₂ := by
  have ⟨i, hi, hx⟩ := h₁
  have ⟨j, hj, hy⟩ := h₂
  simp only [BatchItem.identity, Prod.mk.injEq] at hx hy
  have hi : i ∈ s.core.itemsOf b.id := Table.mem_select.mpr ⟨hi, by simp [hx.left]⟩
  have hj : j ∈ s.core.itemsOf b.id := Table.mem_select.mpr ⟨hj, by simp [hy.left]⟩
  have hd := (h.tallied b hb hs).digest itemsOf_nodup hi hj (hx.right.left.trans hy.right.left.symm)
  exact hx.right.right.symm.trans <| hd.trans hy.right.right

theorem Applies.shows (h : s.Applies page now s') {key digest : String}
    (hx : s.Shows page.batchId key digest ∨
      ∃ item ∈ page.items, item.providerKeyHmac = key ∧ item.parametersDigest = digest) :
    s'.Shows page.batchId key digest := by
  obtain ⟨batch, pages, items, counts, -, -, -, hi, -, -, hb⟩ := h
  have ⟨i, hm, he⟩ := insertItems_shows hi hx
  exact ⟨i, hb ▸ hm, he⟩

-- The batch still collects after the page.
theorem Applies.ingesting (h : s.Applies page now s') :
    ∃ b ∈ s'.batches, b.id = page.batchId ∧ b.state.isIngesting := by
  obtain ⟨batch, _, _, counts, hb, ha, -, -, hb', -⟩ := h
  have hk : batch.id = page.batchId := Table.key_of_get? hb
  refine ⟨batch.advance page counts, hb' ▸ List.mem_map.mpr ⟨batch, Table.mem_of_get? hb, ?_⟩, hk, ?_⟩
  · simp [hk]
  · simp [Batch.advance, ha.collecting, BatchState.isIngesting]

theorem not_applies_of_conflictsWith (h : s.Counted) (hc : s.ConflictsWith page) :
    ¬s.Applies page now s' := by
  intro ha
  -- The items of a batch that collects agree.
  have ⟨b, hb, hk, hs⟩ := ha.ingesting
  have hd {key d₁ d₂ : String} (h₁ : s'.Shows b.id key d₁) (h₂ : s'.Shows b.id key d₂) : d₁ = d₂ :=
    (h.applies ha).digest hb hs h₁ h₂
  obtain ⟨item, hm, ⟨i, hi, hx, hn⟩ | ⟨item', hm', hx, hn⟩⟩ := hc
  case inl =>
    have ⟨hi, hb⟩ := Table.mem_select.mp hi
    have hi : s.Shows page.batchId item.providerKeyHmac i.parametersDigest :=
      ⟨i, hi, by simp_all [BatchItem.identity]⟩
    exact hn <| hd (hk ▸ ha.shows (.inl hi)) (hk ▸ ha.shows (.inr ⟨item, hm, rfl, rfl⟩))
  case inr =>
    exact hn <| hd (hk ▸ ha.shows (.inr ⟨item', hm', hx, rfl⟩)) (hk ▸ ha.shows (.inr ⟨item, hm, rfl, rfl⟩))

-- While a batch is scheduled or collecting, its counters are those of its items, and items with the
-- same key are invalid and agree in their digest. A page that repeats a key with another digest is
-- not applied.
theorem counters_match_items (h : s.Reachable) :
    (∀ b ∈ s.batches, b.state = .scheduled ∨ b.state = .collecting →
      b.validItemCount = (s.core.itemsOf b.id).countP (·.state = .ready) ∧
      b.invalidItemCount = (s.core.itemsOf b.id).countP (·.state = .invalid) ∧
      b.poisonedItemCount = (s.core.itemsOf b.id).countP (fun i =>
        i.state = .poisoned || i.state = .suspectedPoison) ∧
      b.heldItemCount = (s.core.itemsOf b.id).countP (·.state = .held) ∧
      b.validItemCount + b.invalidItemCount + b.poisonedItemCount + b.heldItemCount = b.itemCount ∧
      ∀ i ∈ s.core.itemsOf b.id, ∀ j ∈ s.core.itemsOf b.id, i.id ≠ j.id →
        i.providerKeyHmac = j.providerKeyHmac → i.state = .invalid ∧ j.state = .invalid ∧
          i.parametersDigest = j.parametersDigest) ∧
    ∀ page now, s.ConflictsWith page →
      (∀ s', s.commitCollectionPage page now ≠ .ok (.applied, s')) ∧
      s.exec (.commitCollectionPage page now) = s := by
  constructor
  case left =>
    intro b hb hs
    have hs : b.state.isIngesting := by rcases hs with hs | hs <;> simp [hs, BatchState.isIngesting]
    have ht := h.counted.tallied b hb hs
    refine ⟨ht.counts .ready, ht.counts .invalid, ht.counts .poisoned, ht.counts .held, ht.sum, ?_⟩
    intro i hi j hj hn hk
    obtain ⟨h₁, hd⟩ := ht.keys i hi j hj hn hk
    obtain ⟨h₂, _⟩ := ht.keys j hj i hi hn.symm hk.symm
    exact ⟨h₁, h₂, hd⟩
  case right =>
    intro page now hc
    obtain hn | ⟨s', _, ha⟩ := s.commitCollectionPage_cases page now
    case inl => exact hn
    case inr => exact absurd ha <| not_applies_of_conflictsWith h.counted hc

end Store

namespace Sample

-- The second page repeats the key of the first.
def duplicated : List Op := [
    .createSchedule schedule 0,
    .createBatch batch 2 0,
    .claimCollectionBatch 100 "worker" 60 "takeover" 0,
    .commitCollectionPage { firstPage with leaseToken := "takeover" } 0,
    .commitCollectionPage { secondPage with items := [item 102 1 "first"] } 0
  ]

end Sample

namespace Store

open Sample

theorem counters_match_items_duplicated :
    (database.run .empty duplicated).batchItems.rows.map (·.state) = [.invalid, .invalid] ∧
    ∀ b ∈ (database.run .empty duplicated).batches, b.state = .scheduled ∨ b.state = .collecting →
      b.invalidItemCount =
        ((database.run .empty duplicated).core.itemsOf b.id).countP (·.state = .invalid) :=
  ⟨by decide, fun b hb hs =>
    ((counters_match_items <| Reachable.run .refl duplicated).left b hb hs).right.left⟩

end Store

end Scheduler
