import TaskScheduler.Health.Inputs
import TaskScheduler.Ingestion.Holding
import TaskScheduler.Coordinator.Quarantine

namespace Scheduler

namespace Store

open InputHealthObservation

variable {s s' s₁ : Store} {e : NewHealthEvidence} {nodes n : Nat} {id : Uuid} {order : HashOrder}
variable {now : Time} {st : InputHealthState} {digest fingerprint : String}

-- Since the task last worked with the input, `n` distinct healthy nodes reported that it failed for
-- reasons of one family.
def Quorum (s : Store) (digest fingerprint : String) (n : Nat) : Prop :=
  ∃ (family : FailureFamily) (nodes : List String), nodes.Nodup ∧ n ≤ nodes.length ∧
    ∀ node ∈ nodes, ∃ e ∈ s.healthEvidence, e.isAbout digest fingerprint ∧ e.agentId = node ∧
      e.nodeWasHealthy ∧ e.classification = ⟨.ambiguous, family⟩ ∧
      ∀ e' ∈ s.healthEvidence, e'.isAbout digest fingerprint →
        e'.classification.class = .functional → e'.occurredAt < e.occurredAt

theorem mem_nodesOf_inputObservations {g : FailureFamily} {node : String} :
    node ∈ nodesOf (s.inputObservations digest fingerprint) g ↔
      ∃ e ∈ s.healthEvidence, e.isAbout digest fingerprint ∧ e.agentId = node ∧ e.nodeWasHealthy ∧
        e.classification = ⟨.ambiguous, g⟩ ∧
        ∀ e' ∈ s.healthEvidence, e'.isAbout digest fingerprint →
          e'.classification.class = .functional → e'.occurredAt < e.occurredAt := by
  have hc {c : HealthClassification} :
      c = ⟨.ambiguous, g⟩ ↔ c.class = .ambiguous ∧ c.family = g := by
    cases c
    simp
  simp only [mem_nodesOf, countsFor_iff, mem_inputObservations, hc]
  constructor
  case mp =>
    rintro ⟨_, ⟨e, hm, ha, rfl⟩, ⟨hl, hh, hx, hf⟩, hn⟩
    exact ⟨e, hm, ha, hn, hh, ⟨hx, hf⟩, fun e' hm' ha' => hl _ ⟨e', hm', ha', rfl⟩⟩
  case mpr =>
    rintro ⟨e, hm, ha, hn, hh, ⟨hx, hf⟩, hl⟩
    refine ⟨e.observation, ⟨e, hm, ha, rfl⟩, ⟨?_, hh, hx, hf⟩, hn⟩
    rintro _ ⟨e', hm', ha', rfl⟩
    exact hl e' hm' ha'

theorem quorum_iff : s.Quorum digest fingerprint n ↔
    ∃ g, n ≤ (nodesOf (s.inputObservations digest fingerprint) g).length := by
  constructor
  case mp =>
    intro ⟨g, nodes, nd, hn, hx⟩
    refine ⟨g, hn.trans <| (List.subperm_of_subset nd fun node hm => ?_).length_le⟩
    exact mem_nodesOf_inputObservations.mpr <| hx node hm
  case mpr =>
    intro ⟨g, hn⟩
    exact ⟨g, _, List.nodup_dedup _, hn, fun node => mem_nodesOf_inputObservations.mp⟩

theorem Quorum.mono {m : Nat} (h : s.Quorum digest fingerprint n) (hm : m ≤ n) :
    s.Quorum digest fingerprint m := by
  have ⟨g, nodes, nd, hn, hx⟩ := h
  exact ⟨g, nodes, nd, hm.trans hn, hx⟩

theorem Quorum.congr (h : s.Quorum digest fingerprint n)
    (he : Table.Same inputEvidence s.healthEvidence s'.healthEvidence) :
    s'.Quorum digest fingerprint n := by
  have ⟨g, hn⟩ := quorum_iff.mp h
  refine quorum_iff.mpr ⟨g, hn.trans_eq <| length_nodesOf_congr fun o => ?_⟩
  exact (mem_inputObservations_of_same he).symm

theorem hasEvidence_of_insertEvidence {r : Uuid} (h : s.insertEvidence e id now = .ok s₁)
    (hr : s₁.hasEvidence digest fingerprint r) :
    r = e.runId ∨ s.hasEvidence digest fingerprint r := by
  have ⟨e', hm, he⟩ := List.any_eq_true.mp hr
  cases eq_row_of_insertEvidence h hm
  case inl hm => exact .inr <| List.any_eq_true.mpr ⟨e', hm, he⟩
  case inr hx =>
    subst hx
    exact .inl <| (of_decide_eq_true (Bool.and_eq_true_iff.mp he).right).symm

-- A confirmation is backed by as many nodes as it was asked for.
theorem Recorded.quorum (h : s.Recorded e nodes id order now s₁ st s') (hc : st = .confirmed) :
    s'.Quorum e.blueprintDigest e.inputFingerprint (max nodes 2) := by
  apply Quorum.congr ?_ h.same
  rw [h.state] at hc
  exact quorum_iff.mpr <| evaluateInputHealth_confirmed_iff.mp hc

theorem Evaluated.quorum (h : s.Evaluated) {i : InputHealth}
    (hi : s.inputHealth.get? (digest, fingerprint) = some i) (hc : i.state = .confirmed) :
    s.Quorum digest fingerprint i.distinctHealthyNodes := by
  have hf := h i (Table.mem_of_get? hi)
  have ⟨g, hg⟩ := Option.isSome_iff_exists.mp <| hf.isSome hc
  have h₁ : i.blueprintDigest = digest := congrArg Prod.fst (Table.key_of_get? hi)
  have h₂ : i.inputFingerprint = fingerprint := congrArg Prod.snd (Table.key_of_get? hi)
  have hd := hf.family g hg
  rw [h₁, h₂] at hd
  exact quorum_iff.mpr ⟨g, hd.le⟩

end Store

namespace Pool

variable {cipher : Cipher} {p : Pool} {ev : PoolEvent} {evs : List PoolEvent}

-- Evidence is evaluated with a threshold that no batch with an item at stake exceeds, and an input
-- is held for a batch only if enough nodes are known for that batch.
def Honours (p : Pool) : PoolEvent → Prop
  | .store (.recordHealthEvidence e nodes ..) =>
    ∀ i ∈ p.store.batchItems, i.state.isPoisonable →
      (∃ r ∈ i.runId, r = e.runId ∨ p.store.hasEvidence e.blueprintDigest e.inputFingerprint r) →
      ∀ b ∈ p.store.batches, b.id = i.batchId → b.poisonDistinctNodes ≤ max nodes 2
  | .step k _ (.drafted _ (.rendered digest fingerprint ..)) =>
    ∀ w ∈ p.workers k, ∀ i ∈ p.store.inputHealth.get? (digest, fingerprint), i.state = .confirmed →
      ∀ b ∈ p.store.batches, b.id = w.batch.id → b.poisonDistinctNodes ≤ i.distinctHealthyNodes
  | _ => True

instance : Decidable (p.Honours ev) := by
  unfold Honours
  split <;> infer_instance

instance : Decidable ((ingestion cipher).Enabled p ev) :=
  inferInstanceAs (Decidable (True ∧ ev.isDirect))

-- Evidence that poisons an item was enough for its batch.
theorem poison_quorum {e : NewHealthEvidence} {nodes : Nat} {id : Uuid} {order : HashOrder}
    {now : Time} {i i' : BatchItem} (hr : p.store.Reachable)
    (hh : p.Honours (.store (.recordHealthEvidence e nodes id order now)))
    (hi : i ∈ p.store.batchItems) (hn : i.state ≠ .poisoned)
    (hi' : i' ∈ (p.store.exec (.recordHealthEvidence e nodes id order now)).batchItems)
    (hk : i'.id = i.id) (hs : i'.state = .poisoned) :
    ∃ b ∈ p.store.batches, b.id = i.batchId ∧
      (p.store.exec (.recordHealthEvidence e nodes id order now)).Quorum e.blueprintDigest
        e.inputFingerprint b.poisonDistinctNodes := by
  have old (hm : i' ∈ p.store.batchItems) : False := by
    have he : i' = i := Table.key_injOn hm hi hk
    exact hn <| he ▸ hs
  simp only [Store.exec] at hi' ⊢
  cases hx : p.store.recordHealthEvidence e nodes id order now
  case error =>
    rw [hx] at hi'
    exact (old hi').elim
  case ok r =>
    obtain ⟨st, s'⟩ := r
    obtain ⟨s₁, h⟩ := Store.recorded hx
    have hi' : i' ∈ s'.core.batchItems := by simpa [hx] using hi'
    rw [h.core] at hi'
    split at hi'
    case isFalse => exact (old hi').elim
    case isTrue hc =>
      cases Core.mem_items_of_poison hi'
      case inl hm => exact (old hm).elim
      case inr hp =>
        obtain ⟨j, hj, ha, hp, hm⟩ := hp
        obtain ⟨h₁, h₂, _⟩ := BatchItem.mark_eq.mp hm
        have he : j = i := Table.key_injOn hj hi (h₁.symm.trans hk)
        subst he
        obtain ⟨r, hj', ha⟩ : ∃ r, j.runId = some r ∧
            s₁.hasEvidence e.blueprintDigest e.inputFingerprint r := by
          simpa only [Option.any_eq_true] using ha
        obtain ⟨run, hm, he⟩ := hr.linked.item j hj r hj'
        obtain ⟨b, hb, hb', _⟩ := hr.linked.batch run hm j.batchId (congrArg (·.2.1) he)
        have hle := hh j hj hp ⟨r, hj', Store.hasEvidence_of_insertEvidence h.inserted ha⟩ b hb hb'
        exact ⟨b, hb, hb', (h.quorum hc).mono hle⟩

-- An input that holds an item is confirmed by enough nodes for its batch.
theorem hold_quorum {k : Nat} {now : Time} {digests : RawItemDigests} {digest fingerprint : String}
    {snapshot : Sealed ExecutionSnapshot} {a b c : Nat} {w : Worker} {s' : Store} {batch : Batch}
    (hr : p.store.Reachable)
    (hh : p.Honours (.step k now (.drafted digests (.rendered digest fingerprint snapshot a b c))))
    (hw : p.workers k = some w) (hb : batch ∈ p.store.batches) (hk : batch.id = w.batch.id)
    (hc : p.store.consumeProbeOrIsHeld digest fingerprint now = .ok (true, s')) :
    p.store.Quorum digest fingerprint batch.poisonDistinctNodes := by
  simp only [Store.consumeProbeOrIsHeld] at hc
  cases hi : p.store.inputHealth.get? (digest, fingerprint)
  case none => simp [hi, Transaction.commit] at hc
  case some i =>
    have hs : i.state = .confirmed := by
      by_contra hs
      simp [hi, hs, Transaction.commit] at hc
    exact (hr.evaluated.quorum hi hs).mono <| hh w hw i hi hs batch hb hk

theorem Condemns.quorum {id batchId : Uuid} {digest fingerprint : String}
    (h : p.Condemns cipher id batchId digest fingerprint ev) (hr : p.store.Reachable)
    (hb : ∀ k w, p.workers k = some w → ∃ b ∈ p.store.batches, b.id = w.batch.id)
    (hh : p.Honours ev) : ∃ b ∈ p.store.batches, b.id = batchId ∧
      (p.exec cipher ev).store.Quorum digest fingerprint b.poisonDistinctNodes := by
  cases h
  case poison nodes evidenceId order now i i' e hd hi hk hn hk' hs hev hi' =>
    subst hev
    cases hk
    cases hd
    exact poison_quorum hr hh hi hn hi' hk' hs
  case hold k w page now s' snapshot a b c digests hw hs hl hb' hd hc =>
    have ⟨batch, hm, hk⟩ := hb k w hw
    have hq := hold_quorum hr hh hw hm hk hc
    refine ⟨batch, hm, hk.trans hb', hq.congr ?_⟩
    have he : (p.exec cipher (.step k now (.drafted digests
        (.rendered digest fingerprint snapshot a b c)))).store =
          p.store.exec (.consumeProbeOrIsHeld digest fingerprint now) := by
      simp only [exec, hw, Worker.step, hs, hl, if_true, Worker.materialize,
        Worker.materializeItem, hc]
      simp [Store.exec, hc, Transaction.commit]
    rw [he, (p.store.exec_frame _).healthEvidence (by simp [Op.writes])]
    exact .refl

theorem thresholds_honoured (v : ((ingestion cipher).restrict Honours).Valid .initial evs) :
    (∀ i ∈ ((ingestion cipher).run .initial evs).store.batchItems,
      i.state = .poisoned ∨ i.state = .held → Condemned cipher evs i.id i.batchId) ∧
    ∀ evs₁ ev evs₂ id batchId digest fingerprint, evs = evs₁ ++ ev :: evs₂ →
      ((ingestion cipher).run .initial evs₁).Condemns cipher id batchId digest fingerprint ev →
      ∃ b ∈ ((ingestion cipher).run .initial evs₁).store.batches, b.id = batchId ∧
        ((ingestion cipher).run .initial (evs₁ ++ [ev])).store.Quorum digest fingerprint
          b.poisonDistinctNodes := by
  constructor
  case left =>
    intro i hi hs
    apply (accounted v.of_restrict).items i hi
    cases hs
    all_goals simp [*, BatchItemState.isKept]
  case right =>
    intro evs₁ ev evs₂ id batchId digest fingerprint he hc
    rw [he] at v
    obtain ⟨v₁, v₂⟩ := Machine.Valid.append_iff.mp v
    obtain ⟨⟨_, hh⟩, _⟩ := Machine.Valid.restrict_cons_iff.mp v₂
    have ha := accounted v₁.of_restrict
    rw [Machine.run_append]
    exact hc.quorum ha.store ha.batch hh

end Pool

namespace Sample

-- A worker collects one item and the batch is given its run.
def ingested (batchId itemId : Uuid) : List PoolEvent := [
    .claim 0 batchId "worker" "lease" 0,
    .step 0 0 .reached,
    .step 0 0 (.fetched { snapshotId := "snapshot", items := ["item"], nextCursor := none }),
    .step 0 0 (.drafted { id := itemId, providerKeyHmac := "key", parametersDigest := "digest" }
      (.rendered "blueprint" "input" (some ⟨"blueprint", "parameters"⟩) 1 1 1)),
    .step 0 0 .reached,
    .step 0 0 .reached,
    .step 0 0 (.named (· + 100))
  ]

def executed (runId attemptId : Uuid) (agentId : String) : List PoolEvent := [
    .store (.createAttempt runId agentId 30 attemptId "token" 0),
    .store (.acceptAttempt attemptId "token" 30 0),
    .store (.finishAttempt attemptId "token" (result .failed) none 0 0)
  ]

-- The item of a batch and a run of its own fail with one input.
def sharedInput (poisonDistinctNodes : Nat) : List PoolEvent := [
    .store (.upsertAgent "first" "host" [] 1 0 0),
    .store (.upsertAgent "second" "host" [] 1 0 0),
    .store (.createSchedule schedule 0),
    .store (.createBatch { batch with poisonDistinctNodes } 2 0)
  ] ++ ingested 100 101 ++ executed 201 20 "first" ++ [
    .store (.recordHealthEvidence (failure 20 "first" 0) poisonDistinctNodes 30 default 0),
    .store (.createRun run 3 0)
  ] ++ executed 10 21 "second"

def sharedFailure (poisonDistinctNodes : Nat) : PoolEvent :=
  .store (.recordHealthEvidence { failure 21 "second" 0 with runId := 10 } poisonDistinctNodes 31
    default 0)

end Sample

namespace Pool

open Sample

theorem thresholds_honoured_shared :
    let evs := sharedInput 2 ++ [sharedFailure 2]
    ∃ i ∈ ((ingestion plain).run .initial evs).store.batchItems, i.state = .poisoned ∧
      Condemned plain evs i.id i.batchId := by
  intro evs
  have v : ((ingestion plain).restrict Honours).Valid .initial evs := by decide
  have ⟨i, hi, hs⟩ : ∃ i ∈ ((ingestion plain).run .initial evs).store.batchItems,
      i.state = .poisoned := by
    decide
  exact ⟨i, hi, hs, (thresholds_honoured v).left i hi (.inl hs)⟩

-- The batch asks for three nodes, but the other run asks for two.
theorem shared_input_poisons_early :
    ∃ p, (ingestion plain).Reachable .initial p ∧ p.store.poisonDistinctNodesForRun 10 = 2 ∧
      p.Condemns plain 101 100 "blueprint" "input" (sharedFailure 2) ∧
      ∃ b ∈ p.store.batches, b.id = 100 ∧ b.poisonDistinctNodes = 3 ∧
        ¬(p.exec plain (sharedFailure 2)).store.Quorum "blueprint" "input" 3 := by
  let p := (ingestion plain).run .initial (sharedInput 3)
  refine ⟨p, ⟨_, by decide, rfl⟩, by decide, ?_, ?_⟩
  case refine_1 =>
    have ⟨i, hi, hk, hn⟩ : ∃ i ∈ p.store.batchItems, (i.id, i.batchId) = (101, 100) ∧
        i.state ≠ .poisoned := by
      decide
    have ⟨i', hi', hk', hs⟩ : ∃ i ∈ (p.exec plain (sharedFailure 2)).store.batchItems, i.id = 101 ∧
        i.state = .poisoned := by
      decide
    exact .poison rfl rfl hi hk hn hi' hk' hs
  case refine_2 =>
    have ⟨b, hb, hk, hn⟩ : ∃ b ∈ p.store.batches, b.id = 100 ∧ b.poisonDistinctNodes = 3 := by
      decide
    refine ⟨b, hb, hk, hn, fun hq => ?_⟩
    have ⟨g, hg⟩ := Store.quorum_iff.mp hq
    let s := (p.exec plain (sharedFailure 2)).store
    have hl : ∀ g ∈ FailureFamily.all, (InputHealthObservation.nodesOf
        (s.inputObservations "blueprint" "input") g).length < 3 := by
      decide
    exact (hl g g.mem_all).not_ge hg

end Pool

end Scheduler
