import TaskScheduler.Health.Scoring
import TaskScheduler.Health.Nodes

namespace Scheduler

open Ranking

def NodeHealthDecision.severity : NodeHealthDecision → Nat
  | healthy        => 0
  | suspect        => 1
  | autoQuarantine => 2

namespace NodeHealthObservation

variable {l l' w w' obs obs' : List NodeHealthObservation} {o a b : NodeHealthObservation}
  {now : Time}

-- A window with fewer failures and no fewer successes is not assessed more severely.
section Mono

theorem length_failures_add : (failures w).length + (successes w).length = w.length := by
  have hl := List.length_eq_countP_add_countP (l := w) (·.classification.class.isFailure)
  simp only [failures, successes, ← List.countP_eq_length_filter]
  simpa using hl.symm

theorem distinctInputs_mono (h : w' ⊆ w) : distinctInputs w' ≤ distinctInputs w := by
  refine (List.subperm_of_subset (List.nodup_dedup _) fun i hi => ?_).length_le
  rw [List.mem_dedup] at hi ⊢
  exact List.map_subset _ h hi

theorem distinctSchedules_mono (h : w' ⊆ w) : distinctSchedules w' ≤ distinctSchedules w := by
  refine (List.subperm_of_subset (List.nodup_dedup _) fun i hi => ?_).length_le
  rw [List.mem_dedup] at hi ⊢
  exact List.map_subset _ h hi

theorem failureRate_mono (hf : (failures w').length ≤ (failures w).length)
    (hs : (successes w).length ≤ (successes w').length) : failureRate w' ≤ failureRate w := by
  have hw : (failures w).length + (successes w).length = w.length := length_failures_add
  have hw' : (failures w').length + (successes w').length = w'.length := length_failures_add
  simp only [failureRate]
  split
  case isTrue => split <;> positivity
  case isFalse hn' =>
    split
    case isTrue hn =>
      have hz : (failures w').length = 0 := by simpa [hn, failures] using hf
      simp [hz]
    case isFalse hn =>
      have hc : (0 : ℚ) < w.length := by exact_mod_cast List.length_pos_iff.mpr hn
      have hc' : (0 : ℚ) < w'.length := by exact_mod_cast List.length_pos_iff.mpr hn'
      rw [div_le_div_iff₀ hc' hc, ← hw, ← hw']
      have hx : (failures w').length * (successes w).length ≤
          (failures w).length * (successes w').length := Nat.mul_le_mul hf hs
      have hx : (failures w').length * ((failures w).length + (successes w).length) ≤
          (failures w).length * ((failures w').length + (successes w').length) := by
        rw [Nat.mul_add, Nat.mul_add, Nat.mul_comm (failures w').length]
        omega
      exact_mod_cast hx

theorem strong_subset (h : failures w' ⊆ failures w) : strong w' now ⊆ strong w now := by
  intro o ho
  have ⟨ho, hs⟩ := List.mem_filter.mp ho
  exact List.mem_filter.mpr ⟨h ho, hs⟩

theorem quarantines_mono (hn : w'.Nodup) (hf : failures w' ⊆ failures w)
    (hs : (successes w).length ≤ (successes w').length) (h : quarantines w' now) :
    quarantines w now := by
  have hl := (List.subperm_of_subset (hn.filter _) hf).length_le
  have hr := failureRate_mono hl hs
  have hi := distinctInputs_mono hf
  have hd := distinctSchedules_mono hf
  have hi' : distinctInputs (strong w' now) ≤ distinctInputs (strong w now) :=
    distinctInputs_mono <| strong_subset hf
  have hd' : distinctSchedules (strong w' now) ≤ distinctSchedules (strong w now) :=
    distinctSchedules_mono <| strong_subset hf
  simp only [quarantines, Bool.or_eq_true, Bool.and_eq_true, decide_eq_true_eq] at h ⊢
  cases h
  case inl h =>
    obtain ⟨⟨h₁, h₂⟩, h₃⟩ := h
    refine .inl ⟨⟨h₁.trans hl, ?_⟩, h₃.trans hr⟩
    split at h₂ <;> split <;> omega
  case inr h => exact .inr ⟨h.left.trans hi', h.right.trans hd'⟩

theorem suspects_mono (hn : w'.Nodup) (hf : failures w' ⊆ failures w)
    (hs : (successes w).length ≤ (successes w').length) (h : suspects w') : suspects w := by
  have hl := (List.subperm_of_subset (hn.filter _) hf).length_le
  have hr := failureRate_mono hl hs
  have hi := distinctInputs_mono hf
  simp only [suspects, Bool.and_eq_true, decide_eq_true_eq] at h ⊢
  exact ⟨⟨h.left.left.trans hl, h.left.right.trans hi⟩, h.right.trans hr⟩

theorem severity_mono (hn : w'.Nodup) (hf : failures w' ⊆ failures w)
    (hs : (successes w).length ≤ (successes w').length) :
    (assess w' now).decision.severity ≤ (assess w now).decision.severity := by
  have hq : quarantines w' now → quarantines w now := quarantines_mono hn hf hs
  have hp := suspects_mono hn hf hs
  simp only [assess]
  cases hq' : quarantines w' now <;> cases hq₀ : quarantines w now <;> cases hp' : suspects w' <;>
    cases hp₀ : suspects w <;> simp_all [NodeHealthDecision.severity]

-- A longer window that counts no further failure has no fewer successes.
theorem severity_le (hn : w'.Nodup) (hf : failures w' ⊆ failures w) (hl : w.length ≤ w'.length) :
    (assess w' now).decision.severity ≤ (assess w now).decision.severity := by
  refine severity_mono hn hf ?_
  have hw : (failures w).length + (successes w).length = w.length := length_failures_add
  have hw' : (failures w').length + (successes w').length = w'.length := length_failures_add
  have hf := (List.subperm_of_subset (hn.filter _) hf).length_le
  simp only [failures] at *
  omega

end Mono

-- A success that is added to observations of different times.
section Success

theorem mem_scored (hp : obs'.Perm (o :: obs)) :
    a ∈ scored obs' now ↔ a ∈ scored obs now ∨ a = o ∧ o.isScored (now - .minutes 15) := by
  simp only [scored, List.mem_filter, hp.mem_iff, List.mem_cons]
  grind

theorem failures_subset_of_success (hp : obs'.Perm (o :: obs))
    (hd : (obs.map (·.occurredAt)).Nodup) (ho : o.classification.class = .functional)
    (h : Window (scored obs now) w) (h' : Window (scored obs' now) w') :
    failures w' ⊆ failures w := by
  intro a ha
  have ⟨ha, hf⟩ := List.mem_filter.mp ha
  have hm : a ∈ scored obs now := by
    refine (mem_scored hp).mp (h'.mem ha) |>.resolve_right fun ⟨he, _⟩ => ?_
    rw [he, ho] at hf
    contradiction
  have hs (c) (hc : c ∈ w) : c ∈ scored obs' now := (mem_scored hp).mpr <| .inl <| h.mem hc
  exact List.mem_filter.mpr ⟨h.mem_of_mem h' (scored_inj hd) hs ha hm, hf⟩

-- It need not even be the latest observation.
theorem evaluateNodeHealth_success {order order' : HashOrder}
    (hd : (obs.map (·.occurredAt)).Nodup) (ho : o.classification.class = .functional)
    (hp : obs'.Perm (o :: obs)) :
    (evaluateNodeHealth order' obs' now).decision.severity ≤
      (evaluateNodeHealth order obs now).decision.severity := by
  have h : Window (scored obs now) (recent order obs now) := window_recent
  have h' : Window (scored obs' now) (recent order' obs' now) := window_recent
  have hf := failures_subset_of_success hp hd ho h h'
  have hl := h.length_le_length h' fun b hb =>
    List.mem_map_of_mem <| (mem_scored hp).mpr <| .inl hb
  exact severity_le (.of_map _ h'.nodup) hf hl

end Success

section Retraction

-- The same observation, or one of the ambiguous ones after it is retracted.
def Marks (a b : NodeHealthObservation) : Prop :=
  b = a ∨ a.classification.class = .ambiguous ∧ b = { a with retracted := true }

theorem Marks.eq_of_success (h : Marks a b) (ha : a.classification.class.isFailure = false) :
    b = a := by
  rcases h with h | ⟨hc, _⟩
  case inl => exact h
  case inr =>
    rw [hc] at ha
    contradiction

theorem mem_scored_of_success (hm : List.Forall₂ Marks obs obs') (ha : a ∈ scored obs now)
    (hc : a.classification.class.isFailure = false) : a ∈ scored obs' now := by
  rw [scored, List.mem_filter] at ha ⊢
  obtain ⟨ha, hs⟩ := ha
  refine ⟨?_, hs⟩
  induction hm
  case nil => contradiction
  case cons hx _ hi =>
    cases List.mem_cons.mp ha
    case inl he =>
      subst he
      exact hx.eq_of_success hc ▸ List.mem_cons_self
    case inr ha => exact List.mem_cons_of_mem _ <| hi ha

-- A failure counts after the retraction that did not count before it.
def Exposes (w w' : List NodeHealthObservation) : Prop :=
  ∃ o ∈ failures w', o ∉ w

-- A threshold is reached that was not.
def Escalates (w w' : List NodeHealthObservation) (now : Time) : Prop :=
  quarantines w' now ∧ ¬quarantines w now ∨
  suspects w' ∧ ¬suspects w ∧ ¬quarantines w now

theorem severity_lt_iff :
    (assess w now).decision.severity < (assess w' now).decision.severity ↔ Escalates w w' now := by
  simp only [assess, Escalates]
  cases quarantines w now <;> cases quarantines w' now <;> cases suspects w <;>
    cases suspects w' <;> simp [NodeHealthDecision.severity]

theorem successes_le (hm : List.Forall₂ Marks obs obs') (h : Window (scored obs now) w)
    (h' : Window (scored obs' now) w') (hx : ¬Exposes w w') (hl : w'.length ≠ 10) :
    (successes w).length ≤ (successes w').length := by
  have hs : inputs (successes w) ⊆ inputs (successes w') := by
    intro i hi
    have ⟨a, ha, hi⟩ := List.mem_map.mp hi
    have ⟨ha, hc⟩ := List.mem_filter.mp ha
    have hc : a.classification.class.isFailure = false := by simpa using hc
    have hn : a.inputFingerprint ∈ inputs w' := by
      by_contra hn
      exact hl (h'.full (mem_scored_of_success hm (h.mem ha) hc) hn).left
    have ⟨b, hb, he⟩ := List.mem_map.mp hn
    refine List.mem_map.mpr ⟨b, List.mem_filter.mpr ⟨hb, ?_⟩, he.trans hi⟩
    by_contra hf
    have hb : b ∈ w := by
      by_contra hn
      exact hx ⟨b, List.mem_filter.mpr ⟨hb, by simpa using hf⟩, hn⟩
    have he := List.inj_on_of_nodup_map h.nodup hb ha he
    simp_all
  have nd : (inputs (successes w)).Nodup := h.nodup.sublist <| List.filter_sublist.map _
  simpa [inputs] using (List.subperm_of_subset nd hs).length_le

theorem not_escalates (hm : List.Forall₂ Marks obs obs') (h : Window (scored obs now) w)
    (h' : Window (scored obs' now) w') (hx : ¬Exposes w w') : ¬Escalates w w' now := by
  rw [← severity_lt_iff, not_lt]
  have nd : w'.Nodup := .of_map _ h'.nodup
  have hf : failures w' ⊆ failures w := by
    intro o ho
    refine List.mem_filter.mpr ⟨?_, (List.mem_filter.mp ho).right⟩
    by_contra hn
    exact hx ⟨o, ho, hn⟩
  by_cases hl : w'.length = 10
  case pos => exact severity_le nd hf (hl ▸ h.length_le)
  case neg => exact severity_mono nd hf <| successes_le hm h h' hx hl

-- The ten latest inputs, where those at the same time are taken in any order.
def Counts (obs w : List NodeHealthObservation) (now : Time) : Prop :=
  IsTop (·.occurredAt) 10 (latestByInput (scored obs now)) w

theorem Counts.window (h : Counts obs w now) : Window (scored obs now) w :=
  ⟨_, choice_latestByInput, h⟩

theorem counts_recent {order : HashOrder} : Counts obs (recent order obs now) now :=
  .of_sort <| order.perm _

end Retraction

end NodeHealthObservation

namespace Sample

def onNode (code : FailureCode) (agentId input : String) (scheduleId : Uuid) (occurredAt : Time) :
    NewHealthEvidence :=
  { reported (some code) input false with agentId, scheduleId, occurredAt }

def crashed : NodeHealthObservation :=
  seen (some .processCrashed) "c" 1 1

def crashing : List NodeHealthObservation :=
  [crashed, seen (some .processCrashed) "a" 1 2, seen (some .processCrashed) "b" 1 3]

-- The first failure of "c" is the node's own.
def hiddenBy (o : NodeHealthObservation) : List NodeHealthObservation := [
    seen (some .executorStartFailed) "c" 1 0,
    o,
    seen (some .executorStartFailed) "a" 1 2,
    seen (some .executorStartFailed) "b" 5 3
  ]

def hiddenEvidence : List Op := [
    .createSchedule schedule 0,
    .createSchedule { schedule with id := 5 } 0,
    .createRun run 2 0,
    .upsertAgent "first" "host" [] 1 0 0,
    .upsertAgent "second" "host" [] 1 0 0,
    .recordHealthEvidence (onNode .executorStartFailed "first" "c" 1 1000) 2 30 default 1000,
    .recordHealthEvidence (onNode .processCrashed "first" "c" 1 1001) 2 31 default 1001,
    .recordHealthEvidence (onNode .executorStartFailed "first" "a" 1 1002) 2 32 default 1002,
    .recordHealthEvidence (onNode .executorStartFailed "first" "b" 5 1003) 2 33 default 1003
  ]

def lastCrash : Op :=
  .recordHealthEvidence (onNode .processCrashed "second" "c" 1 1004) 2 34 default 1004

end Sample

open Sample NodeHealthObservation

theorem evaluateNodeHealth_success_crashes :
    (evaluateNodeHealth default crashing 10).decision = .suspect ∧
    (evaluateNodeHealth default (seen none "d" 1 10 :: crashing) 10).decision.severity ≤
      (evaluateNodeHealth default crashing 10).decision.severity := by
  refine ⟨by decide +kernel, ?_⟩
  apply evaluateNodeHealth_success (o := seen none "d" 1 10)
  case hd => decide
  case ho => rfl
  case hp => exact .refl _

-- The confirmed input no longer counts with its last failure, but with the one before it.

end Scheduler
