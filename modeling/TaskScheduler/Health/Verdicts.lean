import TaskScheduler.Health.Inputs

namespace Scheduler

namespace InputHealthObservation

variable {obs obs' : List InputHealthObservation} {o : InputHealthObservation} {g : FailureFamily}

-- The observation speaks against the input: the failure is ambiguous, its node was healthy, and no
-- functional outcome is as recent.
def Implicates (obs : List InputHealthObservation) (o : InputHealthObservation) : Prop :=
  o.classification.class = .ambiguous ∧ o.nodeWasHealthy ∧
    ∀ b ∈ obs, b.classification.class = .functional → b.occurredAt < o.occurredAt

theorem countsFor_iff_implicates :
    countsFor obs g o ↔ o.Implicates obs ∧ o.classification.family = g := by
  rw [countsFor_iff, Implicates]
  tauto

theorem exists_implicates_iff : (∃ o ∈ obs, o.Implicates obs) ↔ ∃ g, nodesOf obs g ≠ [] := by
  constructor
  case mp =>
    intro ⟨o, ho, hi⟩
    refine ⟨o.classification.family, List.ne_nil_of_mem <| mem_nodesOf.mpr ⟨o, ho, ?_, rfl⟩⟩
    exact countsFor_iff_implicates.mpr ⟨hi, rfl⟩
  case mpr =>
    intro ⟨g, hg⟩
    have ⟨a, ha⟩ := List.exists_mem_of_ne_nil _ hg
    have ⟨o, ho, hc, _⟩ := mem_nodesOf.mp ha
    exact ⟨o, ho, (countsFor_iff_implicates.mp hc).left⟩

-- The nodes that agree on a failure family are as many as any list of such nodes can name.
theorem le_length_nodesOf_iff {n : Nat} : n ≤ (nodesOf obs g).length ↔
    ∃ nodes : List String, nodes.Nodup ∧ n ≤ nodes.length ∧ ∀ a ∈ nodes, ∃ o ∈ obs,
      o.agentId = a ∧ o.classification.family = g ∧ o.Implicates obs := by
  have hm {a : String} : a ∈ nodesOf obs g ↔
      ∃ o ∈ obs, o.agentId = a ∧ o.classification.family = g ∧ o.Implicates obs := by
    simp only [mem_nodesOf, countsFor_iff_implicates]
    grind
  constructor
  case mp => exact fun h => ⟨nodesOf obs g, List.nodup_dedup _, h, fun a => hm.mp⟩
  case mpr =>
    intro ⟨nodes, nd, hl, hn⟩
    exact hl.trans <| (List.subperm_of_subset nd fun a ha => hm.mpr <| hn a ha).length_le

-- An observation that is neither functional nor counted changes no count.
theorem length_nodesOf_cons (hf : o.classification.class ≠ .functional)
    (hc : o.classification.class = .ambiguous → o.nodeWasHealthy = false) :
    (nodesOf (o :: obs) g).length = (nodesOf obs g).length := by
  have hi {b : InputHealthObservation} : countsFor (o :: obs) g b ↔ countsFor obs g b := by
    simp only [countsFor_iff, List.forall_mem_cons]
    tauto
  apply Nat.le_antisymm
  all_goals
    apply length_nodesOf_le
    intro b hb hx
  case h₁ =>
    refine ⟨?_, hi.mp hx⟩
    cases hb
    case tail hb => exact hb
    case head =>
      have ⟨_, hh, ha, _⟩ := countsFor_iff.mp hx
      simp [hc ha] at hh
  case h₂ => exact ⟨.tail _ hb, hi.mpr hx⟩

end InputHealthObservation

open InputHealthObservation

theorem strongest_congr {nodes nodes' : FailureFamily → List String}
    (h : ∀ g, (nodes g).length = (nodes' g).length) {fs : List FailureFamily} :
    strongest nodes fs = strongest nodes' fs := by
  induction fs
  case nil => rfl
  case cons f fs hi =>
    have hn : nodes f = [] ↔ nodes' f = [] := by
      rw [← List.length_eq_zero_iff, h, List.length_eq_zero_iff]
    simp only [strongest, hi, h, hn]

theorem evaluateInputHealth_congr {obs obs' : List InputHealthObservation} {n : Nat}
    (h : ∀ g, (nodesOf obs g).length = (nodesOf obs' g).length) :
    evaluateInputHealth obs n = evaluateInputHealth obs' n := by
  simp only [evaluateInputHealth, strongest_congr h]
  cases strongest (nodesOf obs') FailureFamily.all
  case none => rfl
  case some f => simp only [InputHealthEvaluation.ofStrongest, h]

theorem strongest_ne_nil {nodes : FailureFamily → List String} {f : FailureFamily}
    {fs : List FailureFamily} (h : strongest nodes fs = some f) : nodes f ≠ [] := by
  induction fs generalizing f
  case nil => contradiction
  case cons g fs hi =>
    simp only [strongest] at h
    split at h
    case h_1 =>
      split at h
      case isTrue => contradiction
      case isFalse hg =>
        cases h
        exact hg
    case h_2 c hs =>
      split at h
      case isTrue hl =>
        cases h
        exact List.ne_nil_of_length_pos <| Nat.zero_lt_of_lt hl
      case isFalse =>
        cases h
        exact hi hs

theorem evaluateInputHealth_clear_iff {obs : List InputHealthObservation} {n : Nat} :
    (evaluateInputHealth obs n).state = .clear ↔ ∀ g, nodesOf obs g = [] := by
  unfold evaluateInputHealth
  cases hs : strongest (nodesOf obs) FailureFamily.all
  case none => exact iff_of_true rfl fun g => strongest_none hs g g.mem_all
  case some f =>
    have hf := strongest_ne_nil hs
    simp only [InputHealthEvaluation.ofStrongest]
    split
    all_goals exact iff_of_false (by rintro ⟨⟩) fun hn => hf <| hn f

-- The verdict on an input, for every list of observations: which one it is, that the order and the
-- repetition of observations do not matter, and which observations it does not see.
theorem evaluateInputHealth_meets_specification (obs : List InputHealthObservation) (n : Nat) :
    ((evaluateInputHealth obs n).state = .confirmed ↔
      ∃ g, ∃ nodes : List String, nodes.Nodup ∧ max 2 n ≤ nodes.length ∧ ∀ a ∈ nodes, ∃ o ∈ obs,
        o.agentId = a ∧ o.classification.family = g ∧ o.Implicates obs) ∧
    ((evaluateInputHealth obs n).state = .suspected ↔
      (evaluateInputHealth obs n).state ≠ .confirmed ∧ ∃ o ∈ obs, o.Implicates obs) ∧
    ((evaluateInputHealth obs n).state = .clear ↔ ¬∃ o ∈ obs, o.Implicates obs) ∧
    (∀ obs', (∀ o, o ∈ obs' ↔ o ∈ obs) → evaluateInputHealth obs' n = evaluateInputHealth obs n) ∧
    ∀ o obs', obs'.Perm (o :: obs) →
      (o.nodeWasHealthy = false ∧ o.classification.class ≠ .functional ∨
        o.classification.class ∈
          [HealthEvidenceClass.strongNodeLocal, .clusterSensitive, .ignore]) →
      evaluateInputHealth obs' n = evaluateInputHealth obs n := by
  have hclear : (evaluateInputHealth obs n).state = .clear ↔ ¬∃ o ∈ obs, o.Implicates obs := by
    rw [evaluateInputHealth_clear_iff, exists_implicates_iff]
    simp
  have hset {obs₁ obs₂ : List InputHealthObservation} (h : ∀ o, o ∈ obs₁ ↔ o ∈ obs₂) :
      evaluateInputHealth obs₁ n = evaluateInputHealth obs₂ n :=
    evaluateInputHealth_congr fun _ => length_nodesOf_congr h
  refine ⟨?_, ?_, hclear, fun obs' h => hset h, fun o obs' hp ho => ?_⟩
  case refine_1 =>
    rw [evaluateInputHealth_confirmed_iff, Nat.max_comm]
    exact exists_congr fun g => le_length_nodesOf_iff
  case refine_2 =>
    cases hs : (evaluateInputHealth obs n).state <;> simp_all
  case refine_3 =>
    rw [hset fun o => hp.mem_iff]
    have ⟨hf, hc⟩ : o.classification.class ≠ .functional ∧
        (o.classification.class = .ambiguous → o.nodeWasHealthy = false) := by
      rcases ho with ⟨hn, hf⟩ | ho
      case inl => exact ⟨hf, fun _ => hn⟩
      case inr => cases hc : o.classification.class <;> simp_all
    exact evaluateInputHealth_congr fun g => length_nodesOf_cons hf hc

namespace Sample

def observed (agentId : String) (occurredAt : Time) (healthy : Bool) (c : HealthEvidenceClass) :
    InputHealthObservation where
  agentId
  occurredAt
  classification := ⟨c, .crash⟩
  nodeWasHealthy := healthy

-- The input crashes on two healthy nodes.
def crashes : List InputHealthObservation := [
    observed "first" 1 true .ambiguous,
    observed "second" 2 true .ambiguous
  ]

end Sample

open Sample

theorem evaluateInputHealth_meets_specification_crashes :
    evaluateInputHealth crashes 2 = ⟨.confirmed, some .crash, 2⟩ ∧
    evaluateInputHealth (crashes ++ crashes.reverse) 2 = ⟨.confirmed, some .crash, 2⟩ ∧
    evaluateInputHealth (crashes ++ [observed "third" 3 false .ambiguous]) 2 =
      ⟨.confirmed, some .crash, 2⟩ := by
  have ⟨_, _, _, hset, hadd⟩ := evaluateInputHealth_meets_specification crashes 2
  have hadd := hadd (observed "third" 3 false .ambiguous)
  refine ⟨by decide, (hset _ ?_).trans (by decide), (hadd _ ?_ ?_).trans (by decide)⟩
  case refine_1 => simp
  case refine_2 => exact List.perm_append_comm
  case refine_3 => decide

-- A success counts wherever it was seen.
theorem unhealthy_success_clears :
    evaluateInputHealth crashes 2 = ⟨.confirmed, some .crash, 2⟩ ∧
    evaluateInputHealth (observed "third" 3 false .functional :: crashes) 2 =
      ⟨.clear, none, 0⟩ := by
  decide

end Scheduler
