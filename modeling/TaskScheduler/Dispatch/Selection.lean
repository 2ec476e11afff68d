import TaskScheduler.Store.Queue
import TaskScheduler.Ingestion.Chain

namespace Scheduler

namespace Store

variable (s : Store) (now : Time)

-- The runs among which `queued_runs` chooses.
def admissibleRuns : List Run :=
  (s.eligibleRuns now).filter (s.withinCap now)

def admissibleSchedules : List Uuid :=
  ((s.admissibleRuns now).map (·.scheduleId)).dedup

-- The oldest admissible run of its schedule.
structure IsOldest (run : Run) : Prop where
  mem : run ∈ s.admissibleRuns now
  le  : ∀ r ∈ s.admissibleRuns now, r.scheduleId = run.scheduleId → run.age ≤ r.age

instance {run : Run} : Decidable (s.IsOldest now run) :=
  decidable_of_iff (_ ∧ _) ⟨fun ⟨h₁, h₂⟩ => ⟨h₁, h₂⟩, fun h => ⟨h.mem, h.le⟩⟩

-- Every schedule gets its turn as long as there are not more of them than runs to select.
def Fair (limit : Nat) : Prop :=
  (s.admissibleSchedules now).length ≤ limit → ∀ run, s.IsOldest now run → run ∈ s.queuedRuns now limit

-- The eligible runs of its schedule that are older than the run.
def inFront (run : Run) : Nat :=
  (s.eligibleRuns now).countP fun r => r.scheduleId = run.scheduleId && r.age < run.age

-- The admissible runs of other schedules that have fewer runs in front of them, or as many and are older.
def overtaking (run : Run) : Nat :=
  (s.admissibleRuns now).countP fun r => r.scheduleId ≠ run.scheduleId &&
    toLex (s.inFront now r, r.age) < toLex (s.inFront now run, run.age)

variable {s now} {run r : Run} {limit : Nat}

theorem mem_admissibleRuns : run ∈ s.admissibleRuns now ↔ run ∈ s.eligibleRuns now ∧ s.withinCap now run :=
  List.mem_filter

theorem eligibleRuns_nodup : ((s.eligibleRuns now).map Run.age).Nodup :=
  .of_map (fun a => (ofLex a).2) <| by
    rw [List.map_map]
    exact (Table.select_nodup : ((s.eligibleRuns now).map Run.id).Nodup)

theorem scheduleRank_eq (hr : run ∈ s.eligibleRuns now) :
    s.scheduleRank now run = s.inFront now run + 1 :=
  Ranking.rank_eq eligibleRuns_nodup hr

-- Within a schedule, a run that is not older has at least as many runs in front.
theorem inFront_le (hs : r.scheduleId = run.scheduleId) (h : run.age ≤ r.age) :
    s.inFront now run ≤ s.inFront now r := by
  refine List.countP_mono_left fun r' _ hp => ?_
  simp only [Bool.and_eq_true, decide_eq_true_eq] at hp ⊢
  exact ⟨hp.left.trans hs.symm, hp.right.trans_le h⟩

theorem queuedRuns_subperm : (s.queuedRuns now limit).Subperm (s.eligibleRuns now) :=
  (List.take_sublist ..).subperm.trans <|
    (List.perm_insertionSort ..).subperm.trans List.filter_sublist.subperm

theorem queuedRuns_nodup : ((s.queuedRuns now limit).map (·.id)).Nodup := by
  have ⟨_, hp, hs⟩ : (s.queuedRuns now limit).Subperm (s.eligibleRuns now) := queuedRuns_subperm
  exact (hp.map _).nodup_iff.mp <| Table.select_nodup.sublist <| hs.map _

theorem queued_of_mem_queuedRuns (h : run ∈ s.queuedRuns now limit) :
    run ∈ s.runs ∧ run.state = .queued := by
  have ⟨hm, he⟩ := Table.mem_select.mp <| queuedRuns_subperm.subset h
  simp only [isEligible, Bool.and_eq_true, decide_eq_true_eq] at he
  exact ⟨hm, he.left.left⟩

theorem IsOldest.mem_queuedRuns_iff (h : s.IsOldest now run) :
    run ∈ s.queuedRuns now limit ↔ s.overtaking now run < min limit 500 := by
  have he := (mem_admissibleRuns.mp h.mem).left
  have nd : ((s.admissibleRuns now).map fun r => toLex (s.scheduleRank now r, r.age)).Nodup := by
    refine .of_map (fun a => (ofLex a).2) ?_
    rw [List.map_map]
    exact eligibleRuns_nodup.sublist <| List.filter_sublist.map _
  have hc : (s.admissibleRuns now).countP (fun r =>
      toLex (s.scheduleRank now r, r.age) < toLex (s.scheduleRank now run, run.age)) =
        s.overtaking now run := by
    refine List.countP_congr fun r hr => ?_
    have hr' := (mem_admissibleRuns.mp hr).left
    simp only [scheduleRank_eq he, scheduleRank_eq hr', Bool.and_eq_true, decide_eq_true_eq,
      Prod.Lex.toLex_lt_toLex, Nat.add_lt_add_iff_right, Nat.add_right_cancel_iff, iff_and_self]
    -- The oldest run of a schedule is not behind others of it.
    intro hlt hs
    have hle := h.le r hr hs
    have hf : s.inFront now run ≤ s.inFront now r := inFront_le hs hle
    rcases hlt with hlt | ⟨-, hlt⟩
    case inl => exact hf.not_gt hlt
    case inr => exact hle.not_gt hlt
  rw [queuedRuns, ← hc]
  exact (Ranking.mem_first nd).trans <| and_iff_right h.mem

end Store

namespace Sample

-- The batch of the first schedule has one run that is running and two that have to wait for it. They are
-- older than the run that the schedule has besides.
def capped : List Op := [
    .createSchedule schedule 0,
    .createSchedule { schedule with id := 2 } 0,
    .createBatch { batch with maxActiveRuns := 1 } 2 0,
    .claimCollectionBatch 100 "worker" 60 "lease" 0,
    .commitCollectionPage { page with
      items := [item 101 0 "first", item 102 1 "second", item 103 2 "third"]
    } 0,
    .finalizeBatch 100 "lease" (· + 100) 0,
    .createAttempt 201 "agent" 30 20 "token" 0,
    .createRun Sample.run 3 1,
    .createRun { Sample.run with id := 11, scheduleId := 2 } 4 2,
    .createRun { Sample.run with id := 12, scheduleId := 2 } 5 2
  ]

end Sample

namespace Store

open Sample

-- There are two schedules and two runs are selected, but both belong to the second schedule.

end Store

end Scheduler
