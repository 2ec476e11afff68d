import TaskScheduler.Cron.Calendar

namespace Scheduler

namespace Calendar

variable (calendar : Calendar) (cron : CronSpec)

def Changes (t : Time) : Prop :=
  calendar.offset cron (t - 1) ≠ calendar.offset cron t

-- What the crates promise for a valid expression that matches some local times, in a timezone whose
-- offset changes are at least two days apart.
structure Lawful (Matches : Time → Prop) : Prop where
  offset_lt t         : |calendar.offset cron t| < dayLength
  spaced t u          :
    calendar.Changes cron t → calendar.Changes cron u → t < u → t + 2 * dayLength ≤ u
  ambiguous_iff t     : calendar.ambiguous cron t ↔
    ∃ u v, u ≠ v ∧ calendar.localTime cron u = t ∧ calendar.localTime cron v = t
  nodup start         : (calendar.iterate cron start).Nodup
  pairwise start      : (calendar.iterate cron start).Pairwise fun t u =>
    calendar.localTime cron t ≤ calendar.localTime cron u
  mem_iterate start t : t ∈ calendar.iterate cron start ↔
    calendar.localTime cron start < calendar.localTime cron t ∧ Matches (calendar.localTime cron t)

-- The clock is set back by at most a day, and by at most what any offset in force leaves of a day.
def SetBackBriefly : Prop :=
  ∀ t u, calendar.offset cron (t - 1) - calendar.offset cron t ≤ dayLength ∧
    calendar.offset cron (t - 1) - calendar.offset cron t + calendar.offset cron u ≤ dayLength

variable {calendar : Calendar} {cron : CronSpec} {Matches : Time → Prop} {after t u v : Int}
  {count : Nat} {l : List Time}

theorem exists_change (hu : u ≤ t) (ho : calendar.offset cron u ≠ calendar.offset cron t) :
    ∃ c, u < c ∧ c ≤ t ∧ calendar.Changes cron c := by
  induction t, hu using Int.leInduction
  case base => contradiction
  case succ t hu hi =>
    by_cases hc : calendar.offset cron u = calendar.offset cron t
    case pos =>
      refine ⟨t + 1, by omega, le_refl _, fun h => ho <| hc.trans ?_⟩
      rwa [add_sub_cancel_right] at h
    case neg =>
      have ⟨c, hl, hr, hc⟩ := hi hc
      exact ⟨c, hl, by omega, hc⟩

namespace Lawful

variable (hl : calendar.Lawful cron Matches)
include hl

theorem bounds (t) : -86400000 < calendar.offset cron t ∧ calendar.offset cron t < 86400000 :=
  abs_lt.mp <| hl.offset_lt t

-- Two days see one change at most.
theorem offset_eq_or (hu : u ≤ v) (hv : v ≤ t) (h : t - u ≤ 172800000) :
    calendar.offset cron u = calendar.offset cron v ∨
      calendar.offset cron v = calendar.offset cron t := by
  by_contra hn
  have ⟨hn₁, hn₂⟩ := not_or.mp hn
  have ⟨c₁, hc₁, hv₁, h₁⟩ := exists_change hu hn₁
  have ⟨c₂, hv₂, hc₂, h₂⟩ := exists_change hv hn₂
  have hs : c₁ + 172800000 ≤ c₂ := hl.spaced c₁ c₂ h₁ h₂ (lt_of_le_of_lt hv₁ hv₂)
  omega

-- What the offset loses in two days, it loses in one change.
theorem drop_eq (hu : u ≤ t) (h : t - u ≤ 172800000)
    (ho : calendar.offset cron u ≠ calendar.offset cron t) :
    ∃ c, calendar.offset cron (c - 1) = calendar.offset cron u ∧
      calendar.offset cron c = calendar.offset cron t := by
  have ⟨c, hc₁, hc₂, hc⟩ := exists_change hu ho
  refine ⟨c, ?_, ?_⟩
  case refine_1 =>
    have h₁ := hl.offset_eq_or (u := u) (v := c - 1) (t := c) (by omega) (by omega) (by omega)
    exact (h₁.resolve_right hc).symm
  case refine_2 =>
    have h₂ := hl.offset_eq_or (u := c - 1) (v := c) (t := t) (by omega) (by omega) (by omega)
    exact h₂.resolve_left hc

theorem ambiguous_of (hn : u ≠ t) (h : calendar.localTime cron u = calendar.localTime cron t) :
    calendar.ambiguous cron (calendar.localTime cron t) :=
  (hl.ambiguous_iff _).mpr ⟨u, t, hn, h, rfl⟩

-- An instant with a local time of its own comes after all those with an earlier local time.
theorem lt_of_localTime_le (ha : ¬calendar.ambiguous cron (calendar.localTime cron t)) (hn : u ≠ t)
    (h : calendar.localTime cron u ≤ calendar.localTime cron t) : u < t := by
  by_contra hu
  have hb₁ := hl.bounds t
  have hb₂ := hl.bounds u
  -- The instant at which the lower offset of `u` gives the local time of `t`.
  let w : Int := t + calendar.offset cron t - calendar.offset cron u
  have hw : u ≤ w := by
    have h : u + calendar.offset cron u ≤ t + calendar.offset cron t := h
    omega
  have ho := hl.offset_eq_or (u := t) (v := u) (t := w) (by omega) hw (by omega)
  have hd : calendar.offset cron t ≠ calendar.offset cron u := by omega
  have hw' : calendar.localTime cron w = calendar.localTime cron t := by
    have he := ho.resolve_left hd
    change w + calendar.offset cron w = t + calendar.offset cron t
    omega
  exact ha <| hl.ambiguous_of (by omega) hw'

theorem lt_of_le_localTime (ha : ¬calendar.ambiguous cron (calendar.localTime cron t)) (hn : u ≠ t)
    (h : calendar.localTime cron t ≤ calendar.localTime cron u) : t < u := by
  by_contra hu
  have hb₁ := hl.bounds t
  have hb₂ := hl.bounds u
  let w : Int := t + calendar.offset cron t - calendar.offset cron u
  have hw : w ≤ u := by
    have h : t + calendar.offset cron t ≤ u + calendar.offset cron u := h
    omega
  have ho := hl.offset_eq_or (u := w) (v := u) (t := t) hw (by omega) (by omega)
  have hd : calendar.offset cron u ≠ calendar.offset cron t := by omega
  have hw' : calendar.localTime cron w = calendar.localTime cron t := by
    have he := ho.resolve_right hd
    change w + calendar.offset cron w = t + calendar.offset cron t
    omega
  exact ha <| hl.ambiguous_of (by omega) hw'

-- The iteration starts early enough for every instant after the argument.
theorem localTime_scanFrom_lt (hs : calendar.SetBackBriefly cron) (ht : after < t) :
    calendar.localTime cron (calendar.scanFrom cron after) < calendar.localTime cron t := by
  have hb₁ := hl.bounds after
  have hb₂ := hl.bounds t
  have hdrop (h : t - after ≤ 172800000) (u) :
      calendar.offset cron after = calendar.offset cron t ∨
        calendar.offset cron after - calendar.offset cron t ≤ 86400000 ∧
          calendar.offset cron after - calendar.offset cron t + calendar.offset cron u ≤
            86400000 := by
    by_cases ho : calendar.offset cron after = calendar.offset cron t
    case pos => exact .inl ho
    case neg =>
      have ⟨c, hc₁, hc₂⟩ := hl.drop_eq ht.le h ho
      exact .inr (hc₁ ▸ hc₂ ▸ hs c u)
  unfold scanFrom
  split
  case isTrue =>
    let m : Int := calendar.localMidnight cron after
    have hb₃ := hl.bounds (m - 86400000)
    have hm : m ≤ after + calendar.offset cron after := Int.ediv_mul_le _ (by decide)
    have hd := hdrop (u := m - 86400000)
    change m - 86400000 + calendar.offset cron (m - 86400000) < t + calendar.offset cron t
    omega
  case isFalse hr =>
    by_contra hn
    have hn : ¬after + calendar.offset cron after < t + calendar.offset cron t := hn
    have hr : calendar.offset cron (after - 86400000) ≤ calendar.offset cron (after + 86400000) :=
      not_lt.mp hr
    have hd := hdrop (by omega) after
    have h₁ := hl.offset_eq_or (u := after) (v := t) (t := after + 86400000) (by omega) (by omega)
      (by omega)
    have h₂ := hl.offset_eq_or (u := after - 86400000) (v := after) (t := t) (by omega) (by omega)
      (by omega)
    omega

end Lawful

-- The instants after the argument, in their own order.
def chronological (after : Time) (l : List Time) : List Time :=
  (l.filter (after < ·)).dedup.insertionSort (· ≤ ·)

theorem pairwise_sort_dedup (l : List Time) : (l.dedup.insertionSort (· ≤ ·)).Pairwise (· < ·) := by
  have hn := (List.perm_insertionSort (· ≤ ·) l.dedup).nodup_iff.mpr l.nodup_dedup
  exact (List.pairwise_insertionSort (· ≤ ·) l.dedup).imp₂ (fun _ _ => lt_of_le_of_ne) hn

theorem pairwise_chronological : (chronological after l).Pairwise (· < ·) :=
  pairwise_sort_dedup _

@[simp]
theorem mem_chronological : t ∈ chronological after l ↔ t ∈ l ∧ after < t := by
  simp [chronological]

theorem filter_sort (l : List Time) :
    (l.dedup.insertionSort (· ≤ ·)).filter (after < ·) = chronological after l := by
  refine ((pairwise_sort_dedup l).filter _).eq_of_mem_iff pairwise_chronological fun t => ?_
  simp

theorem chronological_append {l₁ l₂ : List Time} (h : ∀ t ∈ l₁, ∀ u ∈ l₂, t < u) :
    chronological after (l₁ ++ l₂) = chronological after l₁ ++ chronological after l₂ := by
  refine pairwise_chronological.eq_of_mem_iff (List.pairwise_append.mpr ?_) fun t => ?_
  case refine_1 =>
    refine ⟨pairwise_chronological, pairwise_chronological, fun t ht u hu => ?_⟩
    exact h t (mem_chronological.mp ht).left u (mem_chronological.mp hu).left
  case refine_2 => simp [or_and_right]

theorem append_eq_take {occurrences : List Time} (hp : (occurrences ++ l).Pairwise (· < ·))
    (hc : occurrences.length < count) :
    append after count occurrences l = (occurrences ++ l.filter (after < ·)).take count := by
  fun_induction append after count occurrences l
  case case1 => simp [List.take_of_length_le hc.le]
  case case2 occurrences t l ht he =>
    rw [List.filter_cons_of_pos (by simpa using ht.left), ← he,
      List.append_cons _ _ (l.filter _), List.take_left' (by simp)]
  case case3 occurrences t l ht he hi =>
    rw [hi (by simpa using hp) (by simp; omega), List.filter_cons_of_pos (by simpa using ht.left),
      List.append_cons _ _ (l.filter _)]
  case case4 occurrences t l ht hi =>
    have hlt : ¬after < t := by
      intro h
      refine ht ⟨h, fun hg => ?_⟩
      exact lt_irrefl t <|
        (List.pairwise_append.mp hp).right.right t (List.mem_of_getLast? hg) t List.mem_cons_self
    have hs : (occurrences ++ l).Sublist (occurrences ++ t :: l) :=
      (List.sublist_cons_self t l).append_left _
    rw [hi (hp.sublist hs) hc, List.filter_cons_of_neg (by simpa using hlt)]

theorem appendAmbiguousAfter_eq {occurrences ambiguous : List Time}
    (hp : occurrences.Pairwise (· < ·)) (ho : ∀ o ∈ occurrences, ∀ t ∈ ambiguous, o < t)
    (hc : occurrences.length < count) :
    appendAmbiguousAfter after count occurrences ambiguous =
      (occurrences ++ chronological after ambiguous).take count := by
  have hp' : (occurrences ++ ambiguous.dedup.insertionSort (· ≤ ·)).Pairwise (· < ·) := by
    refine List.pairwise_append.mpr ⟨hp, pairwise_sort_dedup _, fun o hm t ht => ?_⟩
    exact ho o hm t (by simpa using ht)
  rw [appendAmbiguousAfter, append_eq_take hp' hc, filter_sort]

theorem chronological_singleton :
    chronological after [t] = if after < t then [t] else [] := by
  unfold chronological
  split
  case isTrue h => simp [h]
  case isFalse h => simp [h]

-- An instant with a local time of its own comes between those before it and those after it.
def Separated (calendar : Calendar) (cron : CronSpec) (ambiguous l : List Time) : Prop :=
  ∀ done t rest, l = done ++ t :: rest →
    ¬calendar.ambiguous cron (calendar.localTime cron t) →
      (∀ u ∈ ambiguous ++ done, u < t) ∧ ∀ u ∈ rest, t < u

theorem Separated.shift {ambiguous : List Time} (h : calendar.Separated cron ambiguous (t :: l)) :
    calendar.Separated cron (ambiguous ++ [t]) l := by
  intro done u rest he ha
  have hs := h (t :: done) u rest (he ▸ rfl) ha
  rwa [List.append_cons] at hs

theorem Separated.tail {ambiguous : List Time} (h : calendar.Separated cron ambiguous (t :: l)) :
    calendar.Separated cron [] l := by
  intro done u rest he ha
  have ⟨hd, hr⟩ := h (t :: done) u rest (he ▸ rfl) ha
  exact ⟨fun v hv => hd v <| by simp_all, hr⟩

-- The pending instants and the rest of the iteration follow what has been found, whatever the order
-- within the pending ones.
theorem collect_eq {occurrences ambiguous : List Time}
    (hp : occurrences.Pairwise (· < ·)) (ho : ∀ o ∈ occurrences, ∀ t ∈ ambiguous ++ l, o < t)
    (hc : occurrences.length < count) (hs : calendar.Separated cron ambiguous l) :
    calendar.collect cron after count occurrences ambiguous l =
      (occurrences ++ chronological after (ambiguous ++ l)).take count := by
  induction l generalizing occurrences ambiguous
  case nil =>
    rw [collect, List.append_nil]
    exact appendAmbiguousAfter_eq hp (by simpa using ho) hc
  case cons t l hi =>
    by_cases ha : calendar.ambiguous cron (calendar.localTime cron t)
    case pos =>
      rw [collect, if_pos ha, hi hp (by simpa using ho) hc hs.shift, ← List.append_cons]
    case neg =>
      obtain ⟨hbefore, hafter⟩ := hs [] t l rfl ha
      rw [List.append_nil] at hbefore
      have ho₁ : ∀ o ∈ occurrences, ∀ u ∈ ambiguous, o < u := fun o hm u hu =>
        ho o hm u <| List.mem_append_left _ hu
      have hsplit : chronological after (ambiguous ++ t :: l) =
          chronological after ambiguous ++ (chronological after [t] ++ chronological after l) := by
        have hl : ∀ u ∈ ambiguous, ∀ v ∈ [t] ++ l, u < v := by
          intro u hu v hv
          rcases List.mem_cons.mp hv with rfl | hv
          case inl => exact hbefore u hu
          case inr => exact (hbefore u hu).trans <| hafter v hv
        have ht : ∀ u ∈ [t], ∀ v ∈ l, u < v := by simpa using hafter
        rw [← List.singleton_append, chronological_append hl, chronological_append ht]
      generalize hd : occurrences ++ chronological after ambiguous = done
      have hpd : done.Pairwise (· < ·) := by
        rw [← hd]
        refine List.pairwise_append.mpr ⟨hp, pairwise_chronological, fun o hm u hu => ?_⟩
        exact ho₁ o hm u (mem_chronological.mp hu).left
      have htd : ∀ o ∈ done, o < t := by
        rw [← hd]
        refine List.forall_mem_append.mpr ⟨fun o hm => ho o hm t (by simp), fun u hu => ?_⟩
        exact hbefore u (mem_chronological.mp hu).left
      have hrd : ∀ o ∈ done, ∀ u ∈ l, o < u := fun o hm u hu => (htd o hm).trans <| hafter u hu
      rw [hsplit, ← List.append_assoc, hd, collect, if_neg ha, appendAmbiguousAfter_eq hp ho₁ hc,
        hd]
      simp only
      split
      case isTrue hf =>
        rw [List.take_append_of_le_length (by simpa using hf)]
      case isFalse hf =>
        have hlt : done.length < count := by simpa using hf
        have hg : done.getLast? ≠ some t := fun h => lt_irrefl t <| htd t <| List.mem_of_getLast? h
        rw [List.take_of_length_le hlt.le, chronological_singleton]
        by_cases hat : after < t
        case pos =>
          rw [if_pos ⟨hat, hg⟩, if_pos hat, ← List.append_assoc]
          split
          case isTrue hn => rw [List.take_left' (by simpa using hn)]
          case isFalse hn =>
            refine hi ?_ ?_ ?_ hs.tail
            case refine_1 => exact List.pairwise_append.mpr ⟨hpd, by simp, by simpa using htd⟩
            case refine_2 =>
              refine List.forall_mem_append.mpr ⟨hrd, by simpa using hafter⟩
            case refine_3 =>
              rw [List.length_append, List.length_singleton]
              omega
        case neg =>
          rw [if_neg (hat ·.left), if_neg hat, List.nil_append]
          exact hi hpd hrd hlt hs.tail

theorem dropWhile_eq_filter (h : l.Pairwise (· < ·)) :
    l.dropWhile (· ≤ after) = l.filter (after < ·) := by
  induction l
  case nil => rfl
  case cons t l hi =>
    have ⟨ht, h⟩ := List.pairwise_cons.mp h
    by_cases hn : t ≤ after
    case pos =>
      rw [List.dropWhile_cons_of_pos (by simpa using hn), hi h,
        List.filter_cons_of_neg (by simpa using hn)]
    case neg =>
      rw [List.dropWhile_cons_of_neg (by simpa using hn), List.filter_eq_self.mpr]
      have hlt : after < t := not_le.mp hn
      simpa [hlt] using fun u hu => hlt.trans (ht u hu)

namespace Lawful

variable (hl : calendar.Lawful cron Matches)
include hl

theorem separated (start : Time) : calendar.Separated cron [] (calendar.iterate cron start) := by
  intro done t rest he ha
  have hn := he ▸ hl.nodup start
  have hp := he ▸ hl.pairwise start
  have ⟨hn₁, hn₂⟩ := List.nodup_middle.mp hn |> List.nodup_cons.mp
  have ⟨_, hp₂, hp₁⟩ := List.pairwise_append.mp hp
  constructor
  case left =>
    intro u hu
    have hne : u ≠ t := fun h => hn₁ <| List.mem_append_left _ <| h ▸ hu
    exact hl.lt_of_localTime_le ha hne <| hp₁ u hu t List.mem_cons_self
  case right =>
    intro u hu
    have hne : u ≠ t := fun h => hn₁ <| List.mem_append_right _ <| h ▸ hu
    exact hl.lt_of_le_localTime ha hne <| (List.pairwise_cons.mp hp₂).left u hu

end Lawful

-- Every instant that the iteration finds after the argument, in order.
def instantsAfter (calendar : Calendar) (cron : CronSpec) (after : Time) : List Time :=
  chronological after <| calendar.iterate cron <| calendar.scanFrom cron after

theorem pairwise_instantsAfter : (calendar.instantsAfter cron after).Pairwise (· < ·) :=
  pairwise_chronological

namespace Lawful

variable (hl : calendar.Lawful cron Matches)
include hl

theorem nextOccurrences_eq (hv : calendar.invalid cron = none) :
    calendar.nextOccurrences cron after count =
      .ok ((calendar.instantsAfter cron after).take count) := by
  simp only [nextOccurrences, hv]
  split
  case isTrue hc => rw [hc, List.take_zero]
  case isFalse hc =>
    rw [collect_eq .nil (by simp) (Nat.pos_of_ne_zero hc) (hl.separated _)]
    rfl

theorem mem_instantsAfter (hs : calendar.SetBackBriefly cron) :
    t ∈ calendar.instantsAfter cron after ↔ after < t ∧ Matches (calendar.localTime cron t) := by
  rw [instantsAfter, mem_chronological, hl.mem_iterate]
  constructor
  case mp => exact fun ⟨⟨_, hm⟩, ht⟩ => ⟨ht, hm⟩
  case mpr => exact fun ⟨ht, hm⟩ => ⟨⟨hl.localTime_scanFrom_lt hs ht, hm⟩, ht⟩

theorem filter_instantsAfter (hs : calendar.SetBackBriefly cron) (h : after ≤ t) :
    (calendar.instantsAfter cron after).filter (t < ·) = calendar.instantsAfter cron t := by
  refine (pairwise_instantsAfter.filter _).eq_of_mem_iff pairwise_instantsAfter fun o => ?_
  rw [List.mem_filter, hl.mem_instantsAfter hs, hl.mem_instantsAfter hs, decide_eq_true_iff]
  constructor
  case mp => exact fun ⟨⟨_, hm⟩, ht⟩ => ⟨ht, hm⟩
  case mpr => exact fun ⟨ht, hm⟩ => ⟨⟨h.trans_lt ht, hm⟩, ht⟩

theorem mem_take_instantsAfter (hs : calendar.SetBackBriefly cron) :
    t ∈ (calendar.instantsAfter cron after).take count ↔
      after < t ∧ Matches (calendar.localTime cron t) ∧
        {p | after < p ∧ p < t ∧ Matches (calendar.localTime cron p)}.ncard < count := by
  have hset : {p | after < p ∧ p < t ∧ Matches (calendar.localTime cron p)} =
      {p | p ∈ calendar.instantsAfter cron after ∧ p < t} := by
    ext p
    simp only [Set.mem_ofPred_eq, hl.mem_instantsAfter hs]
    tauto
  rw [mem_take_iff pairwise_instantsAfter, hl.mem_instantsAfter hs, hset,
    ncard_filter pairwise_instantsAfter, and_assoc]

end Lawful

theorem Lawful.first {Matches : CronSpec → Time → Prop}
    (hl : ∀ cron, calendar.invalid cron = none →
      calendar.Lawful cron (Matches cron) ∧ calendar.SetBackBriefly cron) :
    calendar.First fun cron t => Matches cron (calendar.localTime cron t) := by
  intro cron after count l h
  cases hv : calendar.invalid cron
  case some => simp [nextOccurrences, hv] at h
  case none =>
    obtain ⟨hl, hs⟩ := hl cron hv
    cases hl.nextOccurrences_eq hv |>.symm.trans h
    refine ⟨pairwise_instantsAfter.sublist <| List.take_sublist _ _, fun o => ?_⟩
    exact hl.mem_take_instantsAfter hs

-- The expression's instants after the argument, the first of them, in order and without a gap.

end Calendar

namespace Sample

-- A timezone that is set back once, and an expression for one local time that occurs twice.
def setBack (change : Time) (early late : Int) (moment : Time) : Calendar where
  invalid _      := none
  offset _ t     := if t < change then early else late
  ambiguous _ t  := change + late ≤ t ∧ t < change + early
  iterate _ t    :=
    if t + (if t < change then early else late) < moment then [moment - early, moment - late]
    else []

theorem setBack_lawful {change early late moment : Int} (hl : -86400000 < late) (hd : late < early)
    (he : early < 86400000) (hm₁ : change + late ≤ moment) (hm₂ : moment < change + early)
    (cron : CronSpec) : (setBack change early late moment).Lawful cron (· = moment) := by
  have hlocal (t m : Int) : (setBack change early late moment).localTime cron t = m ↔
      t < change ∧ t = m - early ∨ change ≤ t ∧ t = m - late := by
    change (t + if t < change then early else late) = m ↔ _
    split <;> omega
  have hiter start : (setBack change early late moment).iterate cron start =
      if (setBack change early late moment).localTime cron start < moment then
        [moment - early, moment - late]
      else [] := rfl
  constructor
  case offset_lt =>
    intro t
    change |if t < change then early else late| < 86400000
    rw [abs_lt]
    split <;> omega
  case spaced =>
    intro t u ht hu
    have hc (c : Int) (h : (setBack change early late moment).Changes cron c) : c = change := by
      have h : (if c - 1 < change then early else late) ≠ if c < change then early else late := h
      grind
    rw [hc t ht, hc u hu]
    exact fun h => absurd h <| lt_irrefl _
  case ambiguous_iff =>
    intro t
    have ht : (setBack change early late moment).ambiguous cron t ↔
        change + late ≤ t ∧ t < change + early := by simp [setBack]
    simp only [ht, hlocal]
    constructor
    case mp => exact fun h => ⟨t - early, t - late, by grind, by grind, by grind⟩
    case mpr =>
      rintro ⟨u, v, h⟩
      grind
  case nodup =>
    intro start
    have hn : moment - early ≠ moment - late := by omega
    rw [hiter]
    split
    case isTrue => simp [hn]
    case isFalse => exact .nil
  case pairwise =>
    intro start
    have he := hlocal (moment - early) moment |>.mpr <| .inl ⟨by omega, rfl⟩
    have hl := hlocal (moment - late) moment |>.mpr <| .inr ⟨by omega, rfl⟩
    rw [hiter]
    split
    case isTrue => exact List.pairwise_pair.mpr (he.trans hl.symm).le
    case isFalse => exact .nil
  case mem_iterate =>
    intro start t
    rw [hiter]
    split
    case isTrue hs =>
      rw [hlocal, and_iff_right_of_imp fun h => (hlocal t moment |>.mpr h).symm ▸ hs]
      grind
    case isFalse hs =>
      refine ⟨fun h => absurd h List.not_mem_nil, fun ⟨h, ht⟩ => absurd (ht ▸ h) hs⟩

theorem setBack_briefly {change early late moment : Int} (hd : late < early)
    (h₁ : early - late ≤ 86400000) (h₂ : early - late + early ≤ 86400000) (cron : CronSpec) :
    (setBack change early late moment).SetBackBriefly cron := by
  intro t u
  have ho (t) : (setBack change early late moment).offset cron t = early ∨
      (setBack change early late moment).offset cron t = late := ite_eq_or_eq ..
  have h₀ := ho (t - 1)
  have h₁ := ho t
  have h₂ := ho u
  change _ ≤ (86400000 : Int) ∧ _ ≤ (86400000 : Int)
  omega

-- Half past one, on the night in which the clock goes back from two o'clock to one.
def halfPastOne : CronSpec := { expression := "0 30 1 1 1 * 1970", timezone := "Sample/Autumn" }

def autumn : Calendar :=
  setBack 0 7200000 3600000 5400000

end Sample

-- Asked between the two, the second of them is found.

example : Sample.autumn.nextOccurrences Sample.halfPastOne 0 1 = .ok [1800000] := by decide

namespace Sample

def nineOClock : CronSpec := { expression := "0 0 9 1 1 * 1970", timezone := "Sample/DateLine" }

-- A date line is crossed at six in the evening (UTC), from twelve hours ahead to twelve behind.
def dateLine : Calendar :=
  setBack 64800000 43200000 (-43200000) 32400000

end Sample

-- An hour before the clock is set back by a day the iteration starts at noon, after nine o'clock.

end Scheduler
