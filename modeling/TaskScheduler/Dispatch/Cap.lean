import TaskScheduler.Batches.Completion
import TaskScheduler.Dispatch.Selection

namespace Scheduler

-- The run that an operation offers.
def Op.offers : Op → Option Uuid
  | .createAttempt runId .. => some runId
  | _                       => none

namespace Core

variable {c c' : Core} {op : Op} {entries : List LogEntry} {run run' : Run} {r : Uuid} {st : RunState}

-- Runs are never deleted, nor moved to another batch.
theorem Step.extends_refs (hs : c.Step op entries c') :
    Table.Extends Run.ref (fun _ => True) c.runs c'.runs := by
  cases hs
  case queueRun hi => exact .of_insert hi trivial
  case finalize hm _ => exact hm.extends_runs fun _ _ _ => trivial
  case accept hc => exact .of_same <| hc ▸ .of_update rfl fun _ _ _ => rfl
  case finish hc | finishExpired hc =>
    cases hc
    case late => exact .of_same .refl
    case applied =>
      rw [sync_runs]
      exact .of_same <| .of_update rfl fun _ _ _ => rfl
  case cancelBatch | poison => exact .of_same <| .of_update rfl fun _ _ _ => rfl
  case offer | release | reject | cancelRun | retryRun =>
    rw [sync_runs]
    exact .of_same <| .of_update rfl fun _ _ _ => rfl
  all_goals exact .of_same .refl

-- A run that runs did so before, unless it was just offered.
def Ran (c : Core) (op : Op) (run' : Run) : Prop :=
  ∃ run ∈ c.runs, run.ref = run'.ref ∧ (run.state = .running ∨ op.offers = some run.id)

theorem Ran.of_update {p : Run → Bool} {f : Run → Run}
    (hr : ∃ run ∈ c.runs.rows, (if p run then f run else run) = run') (hx : run'.state = .running) (h : ∀ run, p run → (f run).ref = run.ref ∧
      ((f run).state = .running → run.state = .running ∨ op.offers = some run.id)) : c.Ran op run' := by
  obtain ⟨run, hm, rfl⟩ := hr
  split at hx
  case isTrue hp =>
    rw [if_pos hp]
    exact ⟨run, hm, (h run hp).left.symm, (h run hp).right hx⟩
  case isFalse hp =>
    rw [if_neg hp]
    exact ⟨run, hm, rfl, .inl hx⟩

theorem Step.ran (hs : c.Step op entries c') (hr : run' ∈ c'.runs) (hx : run'.state = .running) :
    c.Ran op run' := by
  have same (hr : run' ∈ c.runs) : c.Ran op run' := ⟨run', hr, rfl, .inl hx⟩
  cases hs
  case queueRun hf _ _ hi =>
    obtain hr | rfl := (Table.mem_of_insert hi).mp hr
    case inl => exact same hr
    case inr => simp [hf.state] at hx
  case finalize hm _ =>
    have he := hm.extends_runs (g := id) (P := (·.state = .queued)) fun _ hf _ => hf.state
    rcases he.exists_left hr with ⟨run, hm, rfl⟩ | hq
    case inl => exact same hm
    case inr => cases hq.symm.trans hx
  case accept hc =>
    subst hc
    exact .of_update (List.mem_map.mp hr) hx fun _ _ => ⟨rfl, .inl⟩
  case finish hc | finishExpired hc =>
    cases hc
    case late => exact same hr
    case applied =>
      rw [sync_runs] at hr
      refine .of_update (List.mem_map.mp hr) hx fun run _ => ⟨rfl, fun hs => ?_⟩
      simp only [Run.stateAfter] at hs
      repeat' split at hs
      all_goals contradiction
  case cancelBatch | poison => exact .of_update (List.mem_map.mp hr) hx fun _ _ => ⟨rfl, by rintro ⟨⟩⟩
  case offer =>
    rw [sync_runs] at hr
    refine .of_update (List.mem_map.mp hr) hx fun run hp => ⟨rfl, fun _ => .inr ?_⟩
    simp only [Bool.and_eq_true, decide_eq_true_eq] at hp
    simp [Op.offers, hp.left]
  case release | reject | cancelRun | retryRun =>
    rw [sync_runs] at hr
    exact .of_update (List.mem_map.mp hr) hx fun _ _ => ⟨rfl, by rintro ⟨⟩⟩
  all_goals exact same hr

end Core

-- The coordinator's only dispatcher in the middle of a pass, in which it still has to look at `pending`.
structure Dispatcher where
  store   : Store
  pending : List Uuid

namespace Dispatcher

def initial : Dispatcher where
  store   := .empty
  pending := []

-- What the dispatcher does, and what happens to the store in the meantime.
inductive Action
  | select (limit : Nat) (now : Time)
  | offer (agentId : String) (leaseSeconds : Nat) (id : Uuid) (leaseToken : String) (now : Time)
  | skip
  | store (op : Op)

def exec (σ : Dispatcher) : Action → Dispatcher
  | .select limit now => { σ with pending := (σ.store.queuedRuns now limit).map (·.id) }
  | .offer agentId leaseSeconds id leaseToken now =>
    match σ.pending with
    | []               => σ
    | runId :: pending => {
        store := σ.store.exec (.createAttempt runId agentId leaseSeconds id leaseToken now)
        pending
      }
  | .skip     => { σ with pending := σ.pending.tail }
  | .store op => { σ with store := σ.store.exec op }

-- Nobody else makes offers.
def Enabled (_ : Dispatcher) : Action → Prop
  | .store op => op.offers = none
  | _         => True

instance {σ : Dispatcher} : ∀ act, Decidable (σ.Enabled act)
  | .store op                      => inferInstanceAs (Decidable (op.offers = none))
  | .select .. | .offer .. | .skip => inferInstanceAs (Decidable True)

end Dispatcher

def dispatcher : Machine Dispatcher Dispatcher.Action where
  exec    := Dispatcher.exec
  Enabled := Dispatcher.Enabled

instance {σ : Dispatcher} {act : Dispatcher.Action} : Decidable (dispatcher.Enabled σ act) :=
  inferInstanceAs (Decidable (σ.Enabled act))

namespace Store

variable {s : Store} {op : Op} {b : Batch} {now : Time} {limit : Nat}

-- The run is a child of the batch.
def isChild (s : Store) (batchId runId : Uuid) : Bool :=
  (s.runs.get? runId).any (·.batchId = some batchId)

-- The cap of a batch never changes, and a batch that is new has no runs yet.
theorem exec_cap (l : s.core.Linked) (hb : b ∈ (s.exec op).batches) :
    (∃ b₀ ∈ s.batches, b₀.id = b.id ∧ b₀.maxActiveRuns = b.maxActiveRuns) ∨ b.finalizedAt = none := by
  have of_same (h : Table.Same Batch.progress s.batches (s.exec op).batches) :
      ∃ b₀ ∈ s.batches, b₀.id = b.id ∧ b₀.maxActiveRuns = b.maxActiveRuns := by
    have ⟨b₀, hm, he⟩ := h.exists_left hb
    exact ⟨b₀, hm, congrArg Progress.id he, congrArg Progress.maxActiveRuns he⟩
  cases exec_ingests l op
  case calm h => exact .inl <| of_same h.batches
  case opens h =>
    rcases h with h | ⟨new, triggerId, now, batches, hi, h⟩
    case inl =>
      have hx : (s.exec op).batches = s.batches := congrArg Core.batches h
      exact .inl ⟨b, hx ▸ hb, rfl, rfl⟩
    case inr =>
      have hx : (s.exec op).batches = batches := congrArg Core.batches h
      obtain hb | rfl := (Table.mem_of_insert hi).mp (hx ▸ hb)
      case inl => exact .inl ⟨b, hb, rfl, rfl⟩
      case inr => exact .inr rfl
  case applies page now h =>
    obtain ⟨_, _, _, _, _, _, _, _, hx, _⟩ := h
    rw [hx] at hb
    obtain ⟨b₀, hm, rfl⟩ := Table.mem_update.mp hb
    refine .inl ⟨b₀, hm, ?_⟩
    split <;> exact ⟨rfl, rfl⟩

theorem exec_get? (op : Op) {r : Uuid} {run : Run} (hr : s.runs.get? r = some run) :
    ∃ run', (s.exec op).runs.get? r = some run' ∧ run'.ref = run.ref := by
  have ⟨run', hm, he⟩ := (s.exec_step op).extends_refs.exists_right (Table.mem_of_get? hr)
  have hk : run'.id = r := (congrArg Prod.fst he).trans (Table.key_of_get? hr)
  exact ⟨run', hk ▸ Table.get?_of_mem hm, he⟩

theorem exec_isChild {batchId r : Uuid} {run : Run} (hr : s.runs.get? r = some run) :
    (s.exec op).isChild batchId r = s.isChild batchId r := by
  have ⟨run', hr', he⟩ := exec_get? op hr
  have hb : run'.batchId = run.batchId := congrArg (·.2.1) he
  simp [isChild, hr, hr', hb]

def runningIn (s : Store) (batchId : Uuid) : List Uuid :=
  (s.runs.select fun r => r.batchId = some batchId && r.state = .running).map (·.id)

theorem length_runningIn {batchId : Uuid} : (s.runningIn batchId).length = s.batchRunning batchId := by
  rw [runningIn, List.length_map, batchRunning, List.countP_eq_length_filter]
  rfl

theorem runningIn_nodup {batchId : Uuid} : (s.runningIn batchId).Nodup :=
  Table.select_nodup

-- Only an offer makes a run of the batch run.
theorem batchRunning_exec_le (s : Store) (op : Op) (batchId : Uuid) : (s.exec op).batchRunning batchId ≤
    s.batchRunning batchId + (op.offers.filter (s.isChild batchId)).toList.length := by
  rw [← length_runningIn, ← length_runningIn, ← List.length_append]
  refine (List.subperm_of_subset runningIn_nodup fun r hr => ?_).length_le
  have ⟨run', hm, hk⟩ := List.mem_map.mp hr
  have ⟨hm, hp⟩ := Table.mem_select.mp hm
  simp only [Bool.and_eq_true, decide_eq_true_eq] at hp
  have ⟨run, hr, he, hx⟩ := (s.exec_step op).ran hm hp.right
  have hb : run.batchId = some batchId := (congrArg (·.2.1) he).trans hp.left
  have hi : run.id = r := (congrArg Prod.fst he).trans hk
  rw [List.mem_append]
  rcases hx with hx | hx
  case inl =>
    exact .inl <| List.mem_map.mpr ⟨run, Table.mem_select.mpr ⟨hr, by simp [hb, hx]⟩, hi⟩
  case inr =>
    have hg : s.runs.get? run.id = some run := Table.get?_of_mem hr
    have hc : s.isChild batchId run.id := by simp [isChild, hg, hb]
    exact .inr <| by simp [hx, hc, Option.filter, ← hi]

-- The selected runs of a batch fit into what its cap leaves.
theorem countP_queuedRuns_le (hb : b ∈ s.batches) :
    ((s.queuedRuns now limit).map (·.id)).countP (s.isChild b.id) ≤ b.maxActiveRuns - s.batchRunning b.id := by
  rw [List.countP_map, queuedRuns, Ranking.first]
  refine (List.take_sublist ..).countP_le.trans ?_
  rw [(List.perm_insertionSort ..).countP_eq, List.countP_filter]
  have hle : (s.eligibleRuns now).countP (fun run => run.batchId = some b.id &&
      s.batchRank now run ≤ b.maxActiveRuns - s.batchRunning b.id) ≤ b.maxActiveRuns - s.batchRunning b.id :=
    Ranking.countP_rank_le (some b.id)
  refine le_trans (List.countP_mono_left fun run hr hp => ?_) hle
  have hg : s.runs.get? run.id = some run := Table.get?_of_mem (Table.mem_select.mp hr).left
  have hb : s.batches.get? b.id = some b := Table.get?_of_mem hb
  simp only [Function.comp_apply, isChild, hg, Option.any_some, Bool.and_eq_true, decide_eq_true_eq,
    withinCap] at hp ⊢
  refine ⟨hp.left, ?_⟩
  simpa [hp.left, hb] using hp.right

end Store

namespace Dispatcher

variable {σ : Dispatcher} {act : Action}

-- The runs of a batch that run and those that may still be offered in this pass stay within its cap.
structure Capped (σ : Dispatcher) : Prop where
  linked  : σ.store.core.Linked
  nodup   : σ.pending.Nodup
  waiting : ∀ r ∈ σ.pending, ∃ run, σ.store.runs.get? r = some run ∧ run.state ≠ .running
  room    : ∀ b ∈ σ.store.batches,
    σ.store.batchRunning b.id + σ.pending.countP (σ.store.isChild b.id) ≤ b.maxActiveRuns

namespace Capped

theorem initial : Capped .initial where
  linked  := Store.linked_empty
  nodup   := .nil
  waiting := nofun
  room    := fun _ h => absurd h Table.not_mem_empty

-- A transaction leaves room for what is still pending, if there was room for its offer as well.
theorem of_exec {s : Store} {op : Op} {pending : List Uuid} (l : s.core.Linked) (nd : pending.Nodup)
    (hw : ∀ r ∈ pending, ∃ run, s.runs.get? r = some run ∧ run.state ≠ .running)
    (hn : ∀ r ∈ pending, op.offers ≠ some r)
    (hr : ∀ b ∈ s.batches, s.batchRunning b.id + (op.offers.filter (s.isChild b.id)).toList.length +
      pending.countP (s.isChild b.id) ≤ b.maxActiveRuns) : Capped ⟨s.exec op, pending⟩ where
  linked  := Store.linked_exec l op
  nodup   := nd
  waiting := by
    intro r hp
    have ⟨run, hg, hs⟩ := hw r hp
    have ⟨run', hg', he⟩ := Store.exec_get? op hg
    refine ⟨run', hg', fun hs' => ?_⟩
    have ⟨run₀, hm, he₀, hx⟩ := (s.exec_step op).ran (Table.mem_of_get? hg') hs'
    have hi : run₀.id = run.id := congrArg Prod.fst (he₀.trans he)
    obtain rfl : run₀ = run := Table.key_injOn hm (Table.mem_of_get? hg) hi
    rcases hx with hx | hx
    case inl => exact hs hx
    case inr => exact hn r hp <| hx.trans <| congrArg some (Table.key_of_get? hg)
  room    := by
    intro b hb
    have hc id : pending.countP ((s.exec op).isChild id) = pending.countP (s.isChild id) := by
      refine List.countP_congr fun r hp => ?_
      have ⟨run, hg, _⟩ := hw r hp
      rw [Store.exec_isChild hg]
    rcases Store.exec_cap l hb with ⟨b₀, hb₀, hi, hm⟩ | hf
    case inl =>
      have hle := s.batchRunning_exec_le op b.id
      have hr := hr b₀ hb₀
      rw [hi, hm] at hr
      rw [hc]
      dsimp only
      omega
    case inr =>
      -- No run belongs to a batch that is not finalized.
      have none {run : Run} (hm : run ∈ (s.exec op).runs) (hx : run.batchId = some b.id) : False := by
        have ⟨b', hb', hi, hf'⟩ := (Store.linked_exec l op).batch run hm b.id hx
        obtain rfl : b' = b := Table.key_injOn hb' hb hi
        simp [hf] at hf'
      have h₁ : (s.exec op).batchRunning b.id = 0 :=
        List.countP_eq_zero.mpr fun run hm hp => none hm (by simp at hp; exact hp.left)
      have h₂ : pending.countP ((s.exec op).isChild b.id) = 0 := by
        refine List.countP_eq_zero.mpr fun r _ hp => ?_
        have ⟨run, hg, hx⟩ := Option.any_eq_true .. |>.mp hp
        exact none (Table.mem_of_get? hg) (of_decide_eq_true hx)
      simp [h₁, h₂]

theorem exec (h : σ.Capped) (ha : σ.Enabled act) : (σ.exec act).Capped := by
  cases act
  case select limit now =>
    refine ⟨h.linked, Store.queuedRuns_nodup, fun r hr => ?_, fun b hb => ?_⟩
    case refine_1 =>
      have ⟨run, hm, hi⟩ := List.mem_map.mp hr
      have ⟨hm, hq⟩ := Store.queued_of_mem_queuedRuns hm
      exact ⟨run, hi ▸ Table.get?_of_mem hm, by simp [hq]⟩
    case refine_2 =>
      have hr := h.room b hb
      have hq : ((σ.store.queuedRuns now limit).map (·.id)).countP (σ.store.isChild b.id) ≤ _ :=
        Store.countP_queuedRuns_le hb
      simp only [Dispatcher.exec]
      omega
  case offer agentId leaseSeconds id leaseToken now =>
    simp only [Dispatcher.exec]
    split
    case h_1 => exact h
    case h_2 r pending hp =>
      have ⟨hn, nd⟩ := List.nodup_cons.mp <| hp ▸ h.nodup
      refine of_exec h.linked nd (fun r' hr' => h.waiting r' <| hp ▸ .tail _ hr') (fun r' hr' => ?_) ?_
      · rintro ⟨⟩
        exact hn hr'
      · intro b hb
        have hr := h.room b hb
        rw [hp, List.countP_cons] at hr
        have ho : ((Op.createAttempt r agentId leaseSeconds id leaseToken now).offers.filter
            (σ.store.isChild b.id)).toList.length = if σ.store.isChild b.id r then 1 else 0 := by
          cases hc : σ.store.isChild b.id r <;> simp [Op.offers, Option.filter, hc]
        omega
  case skip =>
    refine ⟨h.linked, h.nodup.sublist <| List.tail_sublist _, fun r hr => h.waiting r <| List.mem_of_mem_tail hr, ?_⟩
    intro b hb
    exact le_trans (Nat.add_le_add_left (List.tail_sublist _).countP_le _) <| h.room b hb
  case store op =>
    have ho : op.offers = none := ha
    refine of_exec h.linked h.nodup h.waiting (by simp [ho]) fun b hb => ?_
    simpa [ho] using h.room b hb

end Capped

-- However the passes of the dispatcher are interleaved with other transactions, no batch ever has more
-- running runs than its cap allows.
theorem running_within_cap (h : dispatcher.Reachable .initial σ) :
    ∀ b ∈ σ.store.batches, σ.store.batchRunning b.id ≤ b.maxActiveRuns := by
  have hc := Machine.Reachable.invariant (I := Capped) (fun _ _ h ha => h.exec ha) h .initial
  intro b hb
  exact (Nat.le_add_right ..).trans (hc.room b hb)

end Dispatcher

namespace Sample

-- A pass offers a run, and a second pass finds the batch full.
def dispatched : List Dispatcher.Action :=
  (capped.take 6).map .store ++ [
    .select 100 10,
    .offer "agent" 30 20 "token" 10,
    .select 100 20,
    .offer "agent" 30 21 "token" 20
  ]

end Sample

namespace Dispatcher

open Sample

theorem running_within_cap_dispatched :
    (dispatcher.run .initial dispatched).store.batchRunning 100 = 1 ∧
    ∀ b ∈ (dispatcher.run .initial dispatched).store.batches,
      (dispatcher.run .initial dispatched).store.batchRunning b.id ≤ b.maxActiveRuns :=
  ⟨by decide, running_within_cap ⟨dispatched, by decide, rfl⟩⟩

end Dispatcher

end Scheduler
