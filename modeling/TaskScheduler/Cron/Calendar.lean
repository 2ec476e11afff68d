import TaskScheduler.Store.Schema

namespace Scheduler

-- What `next_occurrences` asks of the `cron` and `chrono_tz` crates.
structure Calendar where
  -- `parse_cron`: what is wrong with the expression or the timezone.
  invalid   : CronSpec → Option String
  -- `local_minus_utc` at an instant.
  offset    : CronSpec → Time → Int
  -- Whether a local time belongs to two instants.
  ambiguous : CronSpec → Time → Bool
  -- `schedule.after(from)`, in the order of the local times. The iterator ends, as years are bounded.
  iterate   : CronSpec → Time → List Time

namespace Calendar

def dayLength : Time :=
  86400000

variable (calendar : Calendar) (cron : CronSpec)

def localTime (t : Time) : Time :=
  t + calendar.offset cron t

-- Midnight of the local date, read as if it were a time in UTC.
def localMidnight (t : Time) : Time :=
  (calendar.localTime cron t).day * dayLength

-- Near a fall-back the iteration starts before every instant of the local date.
def scanFrom (after : Time) : Time :=
  if calendar.offset cron (after - dayLength) > calendar.offset cron (after + dayLength) then
    calendar.localMidnight cron after - dayLength
  else
    after

-- The loop of `append_ambiguous_after` over the sorted instants.
def append (after : Time) (count : Nat) (occurrences : List Time) : List Time → List Time
  | []        => occurrences
  | t :: rest =>
    if after < t ∧ occurrences.getLast? ≠ some t then
      if occurrences.length + 1 = count then occurrences ++ [t]
      else append after count (occurrences ++ [t]) rest
    else
      append after count occurrences rest

def appendAmbiguousAfter (after : Time) (count : Nat) (occurrences ambiguous : List Time) : List Time :=
  append after count occurrences <| ambiguous.dedup.insertionSort (· ≤ ·)

def collect (after : Time) (count : Nat) (occurrences ambiguous : List Time) : List Time → List Time
  | []        => appendAmbiguousAfter after count occurrences ambiguous
  | t :: rest =>
    if calendar.ambiguous cron (calendar.localTime cron t) then
      collect after count occurrences (ambiguous ++ [t]) rest
    else
      let occurrences := appendAmbiguousAfter after count occurrences ambiguous
      if occurrences.length = count then
        occurrences
      else if after < t ∧ occurrences.getLast? ≠ some t then
        if occurrences.length + 1 = count then occurrences ++ [t]
        else collect after count (occurrences ++ [t]) [] rest
      else
        collect after count occurrences [] rest

def nextOccurrences (after : Time) (count : Nat) : Except String (List Time) :=
  match calendar.invalid cron with
  | some message => .error message
  | none         =>
    .ok <| if count = 0 then [] else
      calendar.collect cron after count [] [] <| calendar.iterate cron (calendar.scanFrom cron after)

def dueCronBatch (cursor now : Time) : Except String (List Time) :=
  (calendar.nextOccurrences cron cursor 1000).map fun l => l.takeWhile (· ≤ now)

variable {calendar : Calendar} {cron : CronSpec} {after now : Time} {count : Nat} {l : List Time}

theorem concat_after {t : Time} (h : ∀ o ∈ l, after < o) (ht : after < t) : ∀ o ∈ l ++ [t], after < o :=
  List.forall_mem_append.mpr ⟨h, by simpa using ht⟩

theorem append_after {occurrences ambiguous : List Time} (h : ∀ o ∈ occurrences, after < o) :
    ∀ o ∈ append after count occurrences ambiguous, after < o := by
  fun_induction append after count occurrences ambiguous
  case case1 => exact h
  case case2 ht _ => exact concat_after h ht.left
  case case3 ht _ hi => exact hi <| concat_after h ht.left
  case case4 hi => exact hi h

theorem collect_after {occurrences ambiguous : List Time} (h : ∀ o ∈ occurrences, after < o) :
    ∀ o ∈ calendar.collect cron after count occurrences ambiguous l, after < o := by
  fun_induction collect calendar cron after count occurrences ambiguous l
  case case1 => exact append_after h
  case case2 hi => exact hi h
  case case3 => exact append_after h
  case case4 ht _ => exact concat_after (append_after h) ht.left
  case case5 ht _ hi => exact hi <| concat_after (append_after h) ht.left
  case case6 hi => exact hi <| append_after h

theorem nextOccurrences_after (h : calendar.nextOccurrences cron after count = .ok l) :
    ∀ o ∈ l, after < o := by
  simp only [nextOccurrences] at h
  split at h
  case h_1 => contradiction
  case h_2 =>
    cases h
    split
    case isTrue => exact nofun
    case isFalse => exact collect_after nofun

theorem dueCronBatch_eq {cursor : Time} (h : calendar.dueCronBatch cron cursor now = .ok l) :
    ∃ l₀, calendar.nextOccurrences cron cursor 1000 = .ok l₀ ∧ l = l₀.takeWhile (· ≤ now) := by
  unfold dueCronBatch at h
  cases hn : calendar.nextOccurrences cron cursor 1000
  case error => simp [hn, Except.map] at h
  case ok l₀ =>
    simp only [hn, Except.map, Except.ok.injEq] at h
    exact ⟨l₀, rfl, h.symm⟩

theorem dueCronBatch_mem {cursor o : Time} (h : calendar.dueCronBatch cron cursor now = .ok l)
    (ho : o ∈ l) : cursor < o ∧ o ≤ now := by
  obtain ⟨l₀, hn, rfl⟩ := dueCronBatch_eq h
  constructor
  case left => exact nextOccurrences_after hn o <| (List.takeWhile_sublist _).subset ho
  case right => simpa using List.mem_takeWhile_imp ho

end Calendar

-- `next_occurrences` returns the first occurrences after its argument, in order.
def Calendar.First (calendar : Calendar) (Occurs : CronSpec → Time → Prop) : Prop :=
  ∀ cron after count l, calendar.nextOccurrences cron after count = .ok l →
    l.Pairwise (· < ·) ∧ ∀ o, o ∈ l ↔
      after < o ∧ Occurs cron o ∧ {p | after < p ∧ p < o ∧ Occurs cron p}.ncard < count

namespace Calendar

variable {calendar : Calendar} {Occurs : CronSpec → Time → Prop} {cron : CronSpec}
  {after cursor now o : Time} {count : Nat} {l : List Time}

theorem mem_takeWhile_le (h : l.Pairwise (· < ·)) : o ∈ l.takeWhile (· ≤ now) ↔ o ∈ l ∧ o ≤ now := by
  induction l
  case nil => simp
  case cons t l hi =>
    have ⟨ht, h⟩ := List.pairwise_cons.mp h
    by_cases hn : t ≤ now
    case pos =>
      rw [List.takeWhile_cons_of_pos (by simpa using hn), List.mem_cons, List.mem_cons, hi h, or_and_right]
      refine or_congr_left ⟨fun he => ⟨he, he ▸ hn⟩, And.left⟩
    case neg =>
      rw [List.takeWhile_cons_of_neg (by simpa using hn)]
      simp only [List.not_mem_nil, List.mem_cons, false_iff, not_and]
      rintro (rfl | ho)
      case inl => exact hn
      case inr => exact fun hl => hn <| (ht o ho).le.trans hl

-- The instants that are due for a schedule, up to a thousand of them.
theorem First.mem_due_iff (h : calendar.First Occurs) (hd : calendar.dueCronBatch cron cursor now = .ok l) :
    o ∈ l ↔ cursor < o ∧ o ≤ now ∧ Occurs cron o ∧
      {p | cursor < p ∧ p < o ∧ Occurs cron p}.ncard < 1000 := by
  obtain ⟨l₀, hn, rfl⟩ := dueCronBatch_eq hd
  have ⟨hs, hm⟩ := h cron cursor 1000 l₀ hn
  rw [mem_takeWhile_le hs, hm]
  tauto

theorem First.pairwise_due (h : calendar.First Occurs) (hd : calendar.dueCronBatch cron cursor now = .ok l) :
    l.Pairwise (· < ·) := by
  obtain ⟨l₀, hn, rfl⟩ := dueCronBatch_eq hd
  exact (h cron cursor 1000 l₀ hn).left.sublist <| List.takeWhile_sublist _

-- What comes before a due instant is due as well, and comes first.
theorem First.mem_of_lt {done rest : List Time} {instant : Time} (h : calendar.First Occurs)
    (hd : calendar.dueCronBatch cron cursor now = .ok (done ++ instant :: rest)) (hc : cursor < o)
    (ho : Occurs cron o) (hl : o < instant) : o ∈ done := by
  have ⟨_, hn, _, hk⟩ := h.mem_due_iff hd |>.mp <| List.mem_append_right done List.mem_cons_self
  have hs : {p | cursor < p ∧ p < o ∧ Occurs cron p} ⊆ {p | cursor < p ∧ p < instant ∧ Occurs cron p} :=
    fun p ⟨h₁, h₂, h₃⟩ => ⟨h₁, h₂.trans hl, h₃⟩
  have hf : {p | cursor < p ∧ p < instant ∧ Occurs cron p}.Finite :=
    (Set.finite_Ioo cursor instant).subset fun p ⟨h₁, h₂, _⟩ => ⟨h₁, h₂⟩
  have hm := h.mem_due_iff hd |>.mpr ⟨hc, hl.le.trans hn, ho, (Set.ncard_le_ncard hs hf).trans_lt hk⟩
  have hp := (List.pairwise_append.mp <| h.pairwise_due hd).right.left
  rcases List.mem_append.mp hm with hm | hm
  case inl => exact hm
  case inr =>
    rcases List.mem_cons.mp hm with rfl | hm
    case inl => exact absurd hl (lt_irrefl _)
    case inr => exact absurd hl ((List.pairwise_cons.mp hp).left o hm).asymm

section Fixed

-- In a timezone with a fixed offset the iteration itself is in the order of instants.
theorem collect_eq_take {occurrences : List Time} (ha : ∀ t, calendar.ambiguous cron t = false)
    (hp : (occurrences ++ l).Pairwise (· < ·)) (hl : ∀ t ∈ l, after < t) (hc : occurrences.length < count) :
    calendar.collect cron after count occurrences [] l = occurrences ++ l.take (count - occurrences.length) := by
  induction l generalizing occurrences
  case nil => simp [collect, appendAmbiguousAfter, append]
  case cons t l hi =>
    have ht : occurrences.getLast? ≠ some t := by
      intro h
      have hm := List.mem_of_getLast? h
      exact lt_irrefl t <| (List.pairwise_append.mp hp).right.right t hm t List.mem_cons_self
    have hn : occurrences.length ≠ count := hc.ne
    have ht' : after < t := hl t List.mem_cons_self
    simp only [collect, ha, Bool.false_eq_true, if_false, appendAmbiguousAfter, List.dedup_nil,
      List.insertionSort_nil, append, hn, ht', ne_eq, ht, not_false_eq_true, and_self, if_true]
    split
    case isTrue hc =>
      have hc : count - occurrences.length = 1 := by omega
      simp [hc]
    case isFalse hc' =>
      have hs : count - occurrences.length = count - (occurrences ++ [t]).length + 1 := by
        simp only [List.length_append, List.length_singleton]
        omega
      rw [hi (by simpa using hp) (fun t ht => hl t <| List.mem_cons_of_mem _ ht) (by simp; omega), hs,
        List.take_succ_cons, List.append_assoc, List.singleton_append]

theorem mem_take_iff (h : l.Pairwise (· < ·)) : o ∈ l.take count ↔ o ∈ l ∧ (l.filter (· < o)).length < count := by
  induction l generalizing count
  case nil => simp
  case cons t l hi =>
    have ⟨ht, h⟩ := List.pairwise_cons.mp h
    cases count
    case zero => simp
    case succ count =>
      rw [List.take_succ_cons, List.mem_cons, List.mem_cons, hi h, or_and_right]
      refine or_congr ⟨?_, And.left⟩ ⟨?_, ?_⟩
      case refine_1 =>
        rintro rfl
        have hf : (o :: l).filter (· < o) = [] := by
          simpa [List.filter_eq_nil_iff] using fun t hm => (ht t hm).le
        exact ⟨rfl, by simp [hf]⟩
      case refine_2 =>
        intro ⟨hm, hl⟩
        exact ⟨hm, by simpa [ht o hm] using hl⟩
      case refine_3 =>
        intro ⟨hm, hl⟩
        exact ⟨hm, by simpa [ht o hm] using hl⟩

theorem ncard_filter (h : l.Pairwise (· < ·)) : {p | p ∈ l ∧ p < o}.ncard = (l.filter (· < o)).length := by
  have hs : {p | p ∈ l ∧ p < o} = ((l.filter (· < o)).toFinset : Set Time) := by
    ext p
    simp
  have hn : (l.filter (· < o)).Nodup := (h.imp ne_of_lt).filter _
  rw [hs, Set.ncard_coe_finset, List.toFinset_card_of_nodup hn]

theorem first_of_fixed (ho : ∀ cron t₁ t₂, calendar.offset cron t₁ = calendar.offset cron t₂)
    (ha : ∀ cron t, calendar.ambiguous cron t = false)
    (hi : ∀ cron start, (calendar.iterate cron start).Pairwise (· < ·) ∧
      ∀ o, o ∈ calendar.iterate cron start ↔ start < o ∧ Occurs cron o) : calendar.First Occurs := by
  intro cron after count l h
  have hs : calendar.scanFrom cron after = after := by
    simp [scanFrom, ho cron (after - dayLength) (after + dayLength)]
  have ⟨hp, hm⟩ := hi cron after
  have hl : l = (calendar.iterate cron after).take count := by
    simp only [nextOccurrences, hs] at h
    split at h
    case h_1 => contradiction
    case h_2 =>
      cases h
      split
      case isTrue hc => simp [hc]
      case isFalse hc =>
        rw [collect_eq_take (ha cron) (by simpa using hp) (fun t ht => (hm t |>.mp ht).left) (by simpa using Nat.pos_of_ne_zero hc)]
        simp
  have hset o : {p | after < p ∧ p < o ∧ Occurs cron p} = {p | p ∈ calendar.iterate cron after ∧ p < o} := by
    ext p
    simp only [Set.mem_ofPred_eq, hm]
    tauto
  refine ⟨hl ▸ hp.sublist (List.take_sublist _ _), fun o => ?_⟩
  rw [hl, mem_take_iff hp, hm, hset, ncard_filter hp, and_assoc]

end Fixed

end Calendar

end Scheduler
