import TaskScheduler.Library.Potential
import TaskScheduler.Ingestion.Leases
import TaskScheduler.Ingestion.Pacing

namespace Scheduler

theorem Worker.step_reachable {s : Store} {w : Worker} {cipher : Cipher} {now : Time}
    (h : s.Reachable) (answer : Answer) : (w.step s cipher now answer).1.Reachable := by
  have ha : w.Advances s cipher now answer _ _ := w.step_advances answer
  generalize (w.step s cipher now answer).1 = s' at ha ⊢
  generalize (w.step s cipher now answer).2 = w' at ha
  cases ha
  case wait => exact h
  case exec op _ _ hs _ _ => exact hs ▸ h.exec op
  case draft hm _ _ => exact (materializeItem_continues h hm).store
  case commit hs _ _ => exact hs ▸ h.exec _

-- The event puts a new worker in the place of another.
def PoolEvent.claims (i : Nat) : PoolEvent → Bool
  | .claim j .. => j = i
  | _           => false

theorem PoolEvent.isDirect_writes {op : Op} (h : (PoolEvent.store op).isDirect) :
    .batchCollectionPages ∉ op.writes := by
  cases op <;> simp_all [Op.writes, Op.writes.concluding, isDirect]

namespace Pool

variable {cipher : Cipher} {p : Pool} {i : Nat} {ev : PoolEvent} {w : Worker}

-- The event is a step of the kind, of the given worker.
def takes (q : Worker → Answer → Bool) (i : Nat) (p : Pool) : PoolEvent → Bool
  | .step j _ answer => j = i && (p.workers i).any (q · answer)
  | _                => false

-- The records of the workers are rows that their batches have had.
structure Paced (p : Pool) : Prop where
  store   : p.store.Reachable
  workers : ∀ i w, p.workers i = some w →
    w.Checked ∧ ∃ b, p.store.batches.get? w.batch.id = some b ∧ w.batch.Leads b

namespace Paced

theorem initial : Pool.initial.Paced where
  store   := .refl
  workers := fun _ _ h => nomatch h

theorem count_nonneg {s : Store} (h : s.Reachable) {b : Batch} (hb : b ∈ s.batches) :
    0 ≤ b.itemCount := by
  have hc := (h.ingestion.chained b hb).count
  have hn : 0 ≤ ((s.pagesOf b.id).map fun p => (p.itemCount : Int)).sum := by
    refine List.sum_nonneg fun n hn => ?_
    have ⟨_, _, he⟩ := List.mem_map.mp hn
    omega
  exact hn.trans_eq hc.symm

theorem proceeds (h : p.Paced) {s' : Store} (hr : s'.Reachable) (hg : p.store.Proceeds s') :
    Paced { p with store := s' } where
  store   := hr
  workers := by
    intro i w hw
    have ⟨hk, b, hb, hl⟩ := h.workers i w hw
    have ⟨b', hb', hl'⟩ := hg _ _ hb
    exact ⟨hk, b', hb', hl.trans hl'⟩

theorem update (h : p.Paced) {s' : Store} {w' : Worker} (hr : s'.Reachable)
    (hg : p.store.Proceeds s') (hk : w'.Checked)
    (hb : ∃ b, s'.batches.get? w'.batch.id = some b ∧ w'.batch.Leads b) :
    Paced ⟨s', Function.update p.workers i w'⟩ where
  store   := hr
  workers := by
    intro j w hw
    dsimp only at hw
    by_cases hj : j = i
    case pos =>
      subst hj
      rw [Function.update_self] at hw
      cases hw
      exact ⟨hk, hb⟩
    case neg =>
      rw [Function.update_of_ne hj] at hw
      exact (h.proceeds hr hg).workers j w hw

theorem claimed {s s' : Store} {batchId : Uuid} {owner token : String} {now : Time} {b : Batch}
    (hr : s.Reachable)
    (h : s.claimCollectionBatch batchId owner collectionLeaseSeconds token now = .ok (some b, s')) :
    s'.Reachable ∧ s.Proceeds s' ∧ s'.batches.get? batchId = some b := by
  have he : s.exec (.claimCollectionBatch batchId owner collectionLeaseSeconds token now) = s' := by
    simp [Store.exec, h]
  refine ⟨he ▸ hr.exec _, he ▸ .exec hr.linked (by simp [Op.writes]), ?_⟩
  exact Store.get?_of_claimCollectionBatch h

theorem start_checked {b : Batch} (hn : 0 ≤ b.itemCount) : (Worker.start b).Checked := by
  refine ⟨Worker.start_batch ▸ hn, fun page items h => ?_⟩
  simp only [Worker.start] at h
  split at h
  case h_1 => cases h
  case h_2 => cases hc : b.ingestionComplete <;> simp [hc] at h

theorem start (h : p.Paced) {s' : Store} {batchId : Uuid} {owner token : String} {now : Time}
    {b : Batch} (hc : p.store.claimCollectionBatch batchId owner collectionLeaseSeconds token now =
      .ok (some b, s')) : Paced ⟨s', Function.update p.workers i (Worker.start b)⟩ := by
  have ⟨hr, hg, hb⟩ := claimed h.store hc
  have hk : b.id = batchId := Table.key_of_get? hb
  refine h.update hr hg (start_checked <| count_nonneg hr <| Table.mem_of_get? hb) ⟨b, ?_, ?_⟩
  case refine_1 => rw [Worker.start_batch, hk, hb]
  case refine_2 => exact Worker.start_batch ▸ .refl

-- What an event does to the store, and to the workers whose own it is not.
theorem exec_cases (h : p.Paced) (hd : ev.isDirect) :
    (p.exec cipher ev).Paced ∧ p.store.Proceeds (p.exec cipher ev).store ∧
      ∀ i, ev.claims i = false →
        (p.exec cipher ev).workers i = p.workers i ∧ (∀ q, p.takes q i ev = false) ∨
        ∃ now answer w w', ev = .step i now answer ∧ p.workers i = some w ∧
          (p.exec cipher ev).workers i = some w' ∧
          w.Spends p.store answer (p.exec cipher ev).store w' := by
  cases ev
  case store op =>
    have hg : p.store.Proceeds (p.store.exec op) :=
      .exec h.store.linked <| PoolEvent.isDirect_writes hd
    exact ⟨h.proceeds (h.store.exec op) hg, hg, fun _ _ => .inl ⟨rfl, fun _ => rfl⟩⟩
  case claim j batchId owner token now =>
    simp only [exec, claim]
    split
    case h_1 b s' hc =>
      refine ⟨h.start hc, (claimed h.store hc).right.left, fun i hi => .inl ⟨?_, fun _ => rfl⟩⟩
      have hi : i ≠ j := by simpa [PoolEvent.claims, eq_comm] using hi
      exact Function.update_of_ne hi ..
    case h_2 s' hc =>
      have he : p.store.exec
          (.claimCollectionBatch batchId owner collectionLeaseSeconds token now) = s' := by
        simp [Store.exec, hc]
      have hg : p.store.Proceeds s' := he ▸ .exec h.store.linked (by simp [Op.writes])
      exact ⟨h.proceeds (he ▸ h.store.exec _) hg, hg, fun _ _ => .inl ⟨rfl, fun _ => rfl⟩⟩
    case h_3 => exact ⟨h, .refl, fun _ _ => .inl ⟨rfl, fun _ => rfl⟩⟩
  case step j now answer =>
    simp only [exec]
    split
    case h_1 hw =>
      refine ⟨h, .refl, fun i _ => .inl ⟨rfl, fun q => ?_⟩⟩
      by_cases hi : j = i
      case pos => simp [takes, ← hi, hw]
      case neg => simp [takes, hi]
    case h_2 w hw =>
      obtain ⟨hk, b, hb, hl⟩ := h.workers j w hw
      have hn := count_nonneg h.store <| Table.mem_of_get? hb
      have hs : w.Spends p.store answer (w.step p.store cipher now answer).1
          (w.step p.store cipher now answer).2 := .step hb hl hk hn h.store.linked answer
      refine ⟨h.update (Worker.step_reachable h.store answer) hs.proceeds hs.checked hs.leads,
        hs.proceeds, fun i _ => ?_⟩
      by_cases hi : i = j
      case pos =>
        subst hi
        exact .inr ⟨now, answer, w, _, rfl, hw, Function.update_self .., hs⟩
      case neg =>
        exact .inl ⟨Function.update_of_ne hi .., fun q => by simp [takes, Ne.symm hi]⟩

end Paced

def potential (f : Store → Worker → Nat) (i : Nat) (p : Pool) : Nat :=
  (p.workers i).elim 0 (f p.store)

-- The worker at place `i` is not replaced by another one.
def undisturbed (cipher : Cipher) (i : Nat) : Machine Pool PoolEvent :=
  (ingestion cipher).restrict fun _ ev => ev.claims i = false

theorem Paced.takes_le (h : p.Paced) {f : Store → Worker → Nat} {q : Worker → Answer → Bool}
    (hf : ∀ {s s' : Store} {w : Worker} {b : Batch}, s.Proceeds s' →
      s.batches.get? w.batch.id = some b → f s' w ≤ f s w)
    (hq : ∀ {s s' : Store} {w w' : Worker} {answer : Answer}, w.Spends s answer s' w' →
      (if q w answer then 1 else 0) + f s' w' ≤ f s w)
    (he : (undisturbed cipher i).Enabled p ev) :
    (if p.takes q i ev then 1 else 0) + (p.exec cipher ev).potential f i ≤ p.potential f i := by
  have ⟨⟨_, hd⟩, hi⟩ := he
  have ⟨_, hg, hc⟩ : (p.exec cipher ev).Paced ∧ _ := h.exec_cases hd
  rcases hc i hi with ⟨hw, ht⟩ | ⟨now, answer, w, w', rfl, hw, hw', hs⟩
  case inr =>
    have ht : p.takes q i (.step i now answer) = q w answer := by simp [takes, hw]
    simpa [ht, potential, hw, hw'] using hq hs
  case inl =>
    rw [ht, potential, potential, hw]
    cases hp : p.workers i
    case none => simp
    case some w =>
      have ⟨_, b, hb, _⟩ := h.workers i w hp
      simpa using hf hg hb

theorem Paced.count_le {evs : List PoolEvent} (h : p.Paced) {f : Store → Worker → Nat}
    {q : Worker → Answer → Bool}
    (hf : ∀ {s s' : Store} {w : Worker} {b : Batch}, s.Proceeds s' →
      s.batches.get? w.batch.id = some b → f s' w ≤ f s w)
    (hq : ∀ {s s' : Store} {w w' : Worker} {answer : Answer}, w.Spends s answer s' w' →
      (if q w answer then 1 else 0) + f s' w' ≤ f s w)
    (v : (undisturbed cipher i).Valid p evs) :
    (ingestion cipher).count (takes q i) p evs ≤ p.potential f i := by
  have hstep (p : Pool) (ev : PoolEvent) (h : p.Paced) (he : (undisturbed cipher i).Enabled p ev) :
      (p.exec cipher ev).Paced := (h.exec_cases he.left.right).left
  have hc := v.count_add_le hstep (fun _ _ h he => h.takes_le hf hq he) h
  rw [undisturbed, Machine.count_restrict] at hc
  exact (Nat.le_add_right ..).trans hc

theorem reachable_paced (h : (ingestion cipher).Reachable .initial p) : p.Paced := by
  have hstep (p : Pool) (ev : PoolEvent) (h : p.Paced) (he : (ingestion cipher).Enabled p ev) :
      (p.exec cipher ev).Paced := (h.exec_cases he.right).left
  exact h.invariant hstep .initial

-- The worker goes on with its batch.
structure Serves (p : Pool) (i : Nat) (b : Batch) : Prop where
  paced  : p.Paced
  worker : ∃ w, p.workers i = some w ∧ w.batch.id = b.id
  row    : ∃ b', p.store.batches.get? b.id = some b' ∧ b.Leads b'

theorem Serves.exec {b : Batch} (h : p.Serves i b) (he : (undisturbed cipher i).Enabled p ev) :
    (p.exec cipher ev).Serves i b := by
  have ⟨⟨_, hd⟩, hi⟩ := he
  have ⟨hp, hg, hc⟩ : (p.exec cipher ev).Paced ∧ _ := h.paced.exec_cases hd
  have ⟨w, hw, hk⟩ := h.worker
  have ⟨b', hb', hl⟩ := h.row
  have ⟨b₁, hb₁, hl₁⟩ := hg _ _ hb'
  refine ⟨hp, ?_, b₁, hb₁, hl.trans hl₁⟩
  rcases hc i hi with ⟨hw', _⟩ | ⟨_, _, w₀, w', _, hw₀, hw', hs⟩
  case inl => exact ⟨w, hw'.trans hw, hk⟩
  case inr =>
    cases hw.symm.trans hw₀
    exact ⟨w', hw', hs.id.trans hk⟩

theorem start_allowance {s : Store} (h : s.Reachable) {b : Batch} (hb : b ∈ s.batches) :
    (Worker.start b).allowance s ≤ b.maxItems := by
  have hm := h.limited b hb
  have hn := Paced.count_nonneg h hb
  have ha : b.allowance ≤ b.maxItems := by
    unfold Batch.allowance
    split
    case isTrue => exact hm
    case isFalse => omega
  simp only [Worker.start, Worker.fail]
  cases b.leaseToken
  case none => exact Nat.zero_le _
  case some =>
    cases hc : b.ingestionComplete
    case false => simpa [Worker.allowance] using ha
    case true => simp [Worker.allowance]

theorem start_work {s : Store} (h : s.Reachable) {b : Batch} (hb : b ∈ s.batches) :
    (Worker.start b).work s ≤ (b.maxItems + 6) * b.maxItems := by
  have hm := h.limited b hb
  have ha := start_allowance h hb
  have hk : b.maxItems + 6 ≤ (b.maxItems + 6) * b.maxItems := Nat.le_mul_of_pos_right _ hm
  simp only [Worker.start, Worker.fail] at ha ⊢
  cases ht : b.leaseToken
  case none => simp only [Worker.work]; omega
  case some =>
    cases hc : b.ingestionComplete
    case false =>
      simp only [ht, hc, Worker.allowance, Bool.false_eq_true, if_false] at ha
      exact Nat.mul_le_mul_left (b.maxItems + 6) ha
    case true => simp only [Worker.work, if_true]; omega

-- Whatever its source answers, a worker asks for at most as many pages as its batch may have items,
-- and ends. By then the batch has its runs or has failed, or another worker can take it on.
theorem ingestion_terminates (h : (ingestion cipher).Reachable .initial p) {batchId : Uuid}
    {owner token : String} {now : Time} {b : Batch} {s : Store}
    (hc : p.store.claimCollectionBatch batchId owner collectionLeaseSeconds token now =
      .ok (some b, s)) {evs : List PoolEvent}
    (v : (undisturbed cipher i).Valid (p.exec cipher (.claim i batchId owner token now)) evs) :
    let p₁ := p.exec cipher (.claim i batchId owner token now)
    let p₂ := (ingestion cipher).run p₁ evs
    (ingestion cipher).count (takes Worker.commits i) p₁ evs ≤ b.maxItems ∧
    (ingestion cipher).count (takes Worker.awaits i) p₁ evs ≤ (b.maxItems + 6) * b.maxItems ∧
    ∃ w b', p₂.workers i = some w ∧ p₂.store.batches.get? batchId = some b' ∧
      (w.stage ≠ .done → ∃ answer, w.awaits answer ∧ ∀ e, answer ≠ .failed e) ∧
      (w.stage = .done → b'.state.isIngesting = false ∨ p₂.store.LeftOver batchId) ∧
      b'.maxItems = b.maxItems ∧ b'.itemCount ≤ b'.maxItems ∧
      b'.itemCount = ((p₂.store.pagesOf batchId).map fun p => (p.itemCount : Int)).sum := by
  intro p₁ p₂
  have hp := reachable_paced h
  obtain ⟨hr, _, hb⟩ := Paced.claimed hp.store hc
  have hm := Table.mem_of_get? hb
  obtain rfl : b.id = batchId := Table.key_of_get? hb
  have he : p₁ = ⟨s, Function.update p.workers i (Worker.start b)⟩ := by
    simp only [p₁, exec, claim, hc]
  have hp₁ : p₁.Paced := he ▸ hp.start hc
  have hpot f : p₁.potential f i = f s (Worker.start b) := by
    simp [he, potential]
  refine ⟨?commits, ?awaits, ?final⟩
  case commits =>
    refine (hp₁.count_le Worker.allowance_le (·.commits) v).trans ?_
    exact (hpot _).trans_le <| start_allowance hr hm
  case awaits =>
    refine (hp₁.count_le Worker.work_le (·.awaits) v).trans ?_
    exact (hpot _).trans_le <| start_work hr hm
  case final =>
    have hs₁ : p₁.Serves i b := by
      refine ⟨hp₁, ⟨Worker.start b, by simp [he], by rw [Worker.start_batch]⟩, b, ?_, .refl⟩
      simp [he, hb]
    have hstep (p : Pool) (ev : PoolEvent) (h : p.Serves i b)
        (he : (undisturbed cipher i).Enabled p ev) : (p.exec cipher ev).Serves i b := h.exec he
    have hs₂ : p₂.Serves i b := v.invariant hstep hs₁
    obtain ⟨w, hw, _⟩ := hs₂.worker
    obtain ⟨b', hb', hl⟩ := hs₂.row
    have hm' := Table.mem_of_get? hb'
    have hk : b'.id = b.id := Table.key_of_get? hb'
    have hc := hs₂.paced.store.ingestion.chained b' hm'
    refine ⟨w, b', hw, hb', Worker.exists_awaits, fun _ => ?_, hl.maxItems, hc.bound, ?_⟩
    case refine_1 =>
      cases hs : b'.state.isIngesting
      case false => exact .inl rfl
      case true => exact .inr <| hs₂.paced.store.leftOver hb' hs
    case refine_2 => exact hk ▸ hc.count

end Pool

namespace Sample

def opened : List PoolEvent := [
    .store (.createSchedule schedule 0),
    .store (.createBatch batch 2 0)
  ]

def idlePool : Pool :=
  (ingestion plain).run .initial opened

-- A page with an invalid item, and an empty last one.
def twoPages : List PoolEvent := [
    .step 0 1 .reached,
    .step 0 2 (.fetched ⟨"snapshot", ["first"], some "next"⟩),
    .step 0 3 (.drafted ⟨101, "first", "digest"⟩ (.invalid "collection_item_invalid")),
    .step 0 4 .reached,
    .step 0 5 .reached,
    .step 0 6 .reached,
    .step 0 7 (.fetched ⟨"snapshot", [], none⟩),
    .step 0 8 .reached,
    .step 0 9 .reached,
    .step 0 10 (.named id)
  ]

end Sample

namespace Pool

open Sample

theorem undisturbed_valid {evs : List PoolEvent}
    (h : ∀ ev ∈ evs, ev.isDirect ∧ ev.claims i = false) : (undisturbed cipher i).Valid p evs := by
  induction evs generalizing p
  case nil => exact .nil
  case cons ev evs hi =>
    have ⟨⟨hd, hc⟩, h⟩ := List.forall_mem_cons.mp h
    exact .cons ⟨⟨trivial, hd⟩, hc⟩ (hi h)

theorem ingestion_terminates_twoPages :
    (ingestion plain).count (takes Worker.commits 0)
      (idlePool.exec plain (.claim 0 100 "worker" "lease" 0)) twoPages ≤ 10 ∧
    (ingestion plain).count (takes Worker.awaits 0)
      (idlePool.exec plain (.claim 0 100 "worker" "lease" 0)) twoPages ≤ 160 := by
  have v : (ingestion plain).Valid .initial opened :=
    .cons ⟨trivial, rfl⟩ <| .cons ⟨trivial, rfl⟩ .nil
  have hv : (undisturbed plain 0).Valid (idlePool.exec plain (.claim 0 100 "worker" "lease" 0))
      twoPages := undisturbed_valid (by decide)
  have hr : (ingestion plain).Reachable .initial idlePool := .run .refl v
  have ⟨b, s, hc, hm⟩ : ∃ b s, idlePool.store.claimCollectionBatch 100 "worker"
      collectionLeaseSeconds "lease" 0 = .ok (some b, s) ∧ b.maxItems = 10 := ⟨_, _, rfl, rfl⟩
  have ⟨h₁, h₂, _⟩ := ingestion_terminates hr hc hv
  rw [hm] at h₁ h₂
  exact ⟨h₁, h₂⟩

example : (ingestion plain).count (takes Worker.commits 0)
    (idlePool.exec plain (.claim 0 100 "worker" "lease" 0)) twoPages = 2 := by decide

end Pool

end Scheduler
