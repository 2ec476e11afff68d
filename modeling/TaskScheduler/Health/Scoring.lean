import TaskScheduler.Library.Ranking
import TaskScheduler.Core.Health

namespace Scheduler

open Ranking

-- The order that takes one list for another.
def HashOrder.of {l l' : List NodeHealthObservation} (h : l'.Perm l) : HashOrder where
  arrange m := if m = l then l' else m
  perm m    := by
    split
    case isTrue hm => exact hm ▸ h
    case isFalse => exact .refl _

namespace NodeHealthObservation

variable {l l' rest kept w : List NodeHealthObservation} {o o' a b : NodeHealthObservation}
  {now : Time}

def scored (obs : List NodeHealthObservation) (now : Time) : List NodeHealthObservation :=
  obs.filter (·.isScored (now - .minutes 15))

-- `latest_by_input`
def latestByInput (l : List NodeHealthObservation) : List NodeHealthObservation :=
  l.foldl keepLatest []

def inputs (l : List NodeHealthObservation) : List String :=
  l.map (·.inputFingerprint)

theorem inputs_keepLatest : inputs (keepLatest l o) =
    if o.inputFingerprint ∈ inputs l then inputs l else inputs l ++ [o.inputFingerprint] := by
  induction l
  case nil => rfl
  case cons a l hi =>
    simp only [keepLatest]
    split
    case isTrue he =>
      have hx : (if a.occurredAt < o.occurredAt then o else a).inputFingerprint =
          a.inputFingerprint := by
        split
        case isTrue => exact he.symm
        case isFalse => rfl
      simp [inputs, hx, he]
    case isFalse he =>
      have hc (l) : inputs (a :: l) = a.inputFingerprint :: inputs l := rfl
      rw [hc, hc, hi]
      simp only [List.mem_cons, Ne.symm he, false_or]
      split <;> simp_all

theorem mem_keepLatest (nd : (inputs l).Nodup) : a ∈ keepLatest l o ↔
    (a ∈ l ∧ (a.inputFingerprint = o.inputFingerprint → o.occurredAt ≤ a.occurredAt)) ∨
    (a = o ∧ ∀ b ∈ l, b.inputFingerprint = o.inputFingerprint → b.occurredAt < o.occurredAt) := by
  induction l
  case nil => simp [keepLatest]
  case cons c l hi =>
    have ⟨hc, nd⟩ := List.nodup_cons.mp nd
    have hc : ∀ b ∈ l, b.inputFingerprint ≠ c.inputFingerprint :=
      fun b hb he => hc <| List.mem_map.mpr ⟨b, hb, he⟩
    simp only [keepLatest]
    split
    case isTrue he =>
      have hl : ∀ b ∈ l, b.inputFingerprint ≠ o.inputFingerprint := he ▸ hc
      split <;> grind
    case isFalse he =>
      rw [List.mem_cons, hi nd]
      grind

-- One of the latest observations of each input.
structure Choice (l kept : List NodeHealthObservation) : Prop where
  nodup  : (inputs kept).Nodup
  mem    : ∀ o ∈ kept, o ∈ l
  latest : ∀ o ∈ kept, ∀ b ∈ l,
    b.inputFingerprint = o.inputFingerprint → b.occurredAt ≤ o.occurredAt
  covers : ∀ b ∈ l, b.inputFingerprint ∈ inputs kept

namespace Choice

theorem exists_of_mem (h : Choice l kept) (hb : b ∈ l) :
    ∃ o ∈ kept, o.inputFingerprint = b.inputFingerprint :=
  List.mem_map.mp <| h.covers b hb

theorem keepLatest (h : Choice l kept) : Choice (l ++ [o]) (keepLatest kept o) := by
  have hm {a} : a ∈ NodeHealthObservation.keepLatest kept o ↔ _ := mem_keepLatest h.nodup
  constructor
  case nodup =>
    rw [inputs_keepLatest]
    split
    case isTrue => exact h.nodup
    case isFalse hn =>
      exact h.nodup.append (List.nodup_singleton _) <| List.disjoint_singleton.mpr hn
  case mem =>
    intro a ha
    rcases hm.mp ha with ⟨ha, _⟩ | ⟨rfl, _⟩
    case inl => exact List.mem_append_left _ <| h.mem a ha
    case inr => simp
  case latest =>
    intro a ha b hb he
    rcases hm.mp ha with ⟨ha, hx⟩ | ⟨rfl, hx⟩ <;> rcases List.mem_append.mp hb with hb | hb
    case inl.inl => exact h.latest a ha b hb he
    case inl.inr =>
      rw [List.mem_singleton] at hb
      exact hb ▸ hx (hb ▸ he.symm)
    case inr.inl =>
      have ⟨c, hc, hb'⟩ := h.exists_of_mem hb
      exact (h.latest c hc b hb hb'.symm).trans (hx c hc <| hb'.trans he).le
    case inr.inr =>
      rw [List.mem_singleton] at hb
      rw [hb]
  case covers =>
    intro b hb
    rw [inputs_keepLatest]
    rcases List.mem_append.mp hb with hb | hb
    case inl =>
      split
      case isTrue => exact h.covers b hb
      case isFalse => exact List.mem_append_left _ <| h.covers b hb
    case inr =>
      rw [List.mem_singleton.mp hb]
      split
      case isTrue ho => exact ho
      case isFalse => simp

theorem foldl (h : Choice l kept) :
    Choice (l ++ l') (l'.foldl NodeHealthObservation.keepLatest kept) := by
  induction l' generalizing l kept
  case nil => simpa using h
  case cons o l' hi =>
    rw [List.append_cons]
    exact hi h.keepLatest

end Choice

theorem choice_latestByInput : Choice l (latestByInput l) := by
  have h : Choice [] [] :=
    ⟨.nil, List.forall_mem_nil _, List.forall_mem_nil _, List.forall_mem_nil _⟩
  exact h.foldl

theorem keepLatest_new (h : o.inputFingerprint ∉ inputs l) : keepLatest l o = l ++ [o] := by
  induction l
  case nil => rfl
  case cons a l hi =>
    have ⟨hn, h⟩ : o.inputFingerprint ≠ a.inputFingerprint ∧ o.inputFingerprint ∉ inputs l := by
      simpa [inputs] using h
    simp only [keepLatest, if_neg (Ne.symm hn), hi h, List.cons_append]

theorem keepLatest_old (nd : (inputs l).Nodup) (ha : a ∈ l)
    (he : a.inputFingerprint = o.inputFingerprint) (ht : o.occurredAt ≤ a.occurredAt) :
    keepLatest l o = l := by
  induction l
  case nil => contradiction
  case cons c l hi =>
    have ⟨hc, nd⟩ := List.nodup_cons.mp nd
    simp only [keepLatest]
    cases ha
    case head => rw [if_pos he, if_neg <| not_lt.mpr ht]
    case tail ha =>
      rw [if_neg fun hx => hc <| List.mem_map.mpr ⟨a, ha, he.trans hx.symm⟩, hi nd ha]

theorem foldl_keepLatest_new (nd : (inputs (l ++ l')).Nodup) :
    l'.foldl keepLatest l = l ++ l' := by
  induction l' generalizing l
  case nil => simp
  case cons o l' hi =>
    have hn : o.inputFingerprint ∉ inputs l := by
      simp only [inputs, List.map_append, List.map_cons, List.nodup_append] at nd ⊢
      grind
    rw [List.foldl_cons, keepLatest_new hn, hi (by simpa using nd), List.append_assoc,
      List.singleton_append]

theorem foldl_keepLatest_old (nd : (inputs l).Nodup) (h : ∀ o ∈ l', ∃ a ∈ l,
    a.inputFingerprint = o.inputFingerprint ∧ o.occurredAt ≤ a.occurredAt) :
    l'.foldl keepLatest l = l := by
  induction l'
  case nil => rfl
  case cons o l' hi =>
    have ⟨a, ha, he, ht⟩ := h o <| .head _
    rw [List.foldl_cons, keepLatest_old nd ha he ht]
    exact hi fun o ho => h o <| .tail _ ho

-- Whichever latest observations are put first are the ones that are kept.
theorem Choice.latestByInput (h : Choice l kept) (hr : ∀ o ∈ rest, o ∈ l) :
    latestByInput (kept ++ rest) = kept := by
  have hk : kept.foldl NodeHealthObservation.keepLatest [] = kept := foldl_keepLatest_new h.nodup
  rw [NodeHealthObservation.latestByInput, List.foldl_append, hk]
  refine foldl_keepLatest_old h.nodup fun o ho => ?_
  have ⟨a, ha, he⟩ := h.exists_of_mem <| hr o ho
  exact ⟨a, ha, he, h.latest a ha o (hr o ho) he.symm⟩

-- The ten latest observations, one for each input; where times are equal, any of them.
def Window (l w : List NodeHealthObservation) : Prop :=
  ∃ kept, Choice l kept ∧ IsTop (·.occurredAt) 10 kept w

namespace Window

theorem nodup (h : Window l w) : (inputs w).Nodup :=
  have ⟨_, hc, ht⟩ := h
  ht.nodup hc.nodup

theorem mem (h : Window l w) (ho : o ∈ w) : o ∈ l :=
  have ⟨_, hc, ht⟩ := h
  hc.mem o <| ht.subset ho

theorem of_perm (h : Window l w) (hp : l.Perm l') : Window l' w := by
  have ⟨kept, hc, ht⟩ := h
  refine ⟨kept, ⟨hc.nodup, ?_, ?_, ?_⟩, ht⟩
  case refine_1 => exact fun o ho => hp.mem_iff.mp <| hc.mem o ho
  case refine_2 => exact fun o ho b hb => hc.latest o ho b <| hp.mem_iff.mpr hb
  case refine_3 => exact fun b hb => hc.covers b <| hp.mem_iff.mpr hb

theorem latest (h : Window l w) (ho : o ∈ w) (hb : b ∈ l)
    (he : b.inputFingerprint = o.inputFingerprint) : b.occurredAt ≤ o.occurredAt :=
  have ⟨_, hc, ht⟩ := h
  hc.latest o (ht.subset ho) b hb he

-- An input is left out only for ten others that were observed no earlier.
theorem full (h : Window l w) (hb : b ∈ l) (hn : b.inputFingerprint ∉ inputs w) :
    w.length = 10 ∧ ∀ o ∈ w, b.occurredAt ≤ o.occurredAt := by
  have ⟨kept, hc, ht⟩ := h
  have ⟨c, hk, he⟩ := hc.exists_of_mem hb
  have hw : c ∉ w := fun hw => hn <| List.mem_map.mpr ⟨c, hw, he⟩
  exact ⟨ht.length_eq hk hw, fun o ho => (hc.latest c hk b hb he.symm).trans <| ht.le ho hk hw⟩

theorem length_le (h : Window l w) : w.length ≤ 10 := by
  have ⟨_, _, ht⟩ := h
  rw [ht.length]
  exact Nat.min_le_left _ _

theorem length_le_length {w' : List NodeHealthObservation} (h : Window l w) (h' : Window l' w')
    (hs : ∀ b ∈ l, b.inputFingerprint ∈ inputs l') : w.length ≤ w'.length := by
  have ⟨kept, hc, ht⟩ := h
  have ⟨kept', hc', ht'⟩ := h'
  have hk : kept.length ≤ kept'.length := by
    have hi : (inputs kept).length ≤ (inputs kept').length := by
      refine (List.subperm_of_subset hc.nodup fun i hi => ?_).length_le
      have ⟨o, ho, he⟩ := List.mem_map.mp hi
      have ⟨b, hb, hx⟩ := List.mem_map.mp <| hs o <| hc.mem o ho
      exact he ▸ hx ▸ hc'.covers b hb
    simpa [inputs] using hi
  rw [ht.length, ht'.length]
  exact min_le_min_left _ hk

-- If none of the inputs of `w` is that of `a`, then a window with `a` leaves one of them out.
theorem exists_left_out {w' : List NodeHealthObservation} (h : Window l w) (h' : Window l' w')
    (hw : w.length = 10) (ha : a ∈ w') (hn : a.inputFingerprint ∉ inputs w) :
    ∃ c ∈ w, c.inputFingerprint ∉ inputs w' := by
  by_contra! hc
  have hs : a.inputFingerprint :: inputs w ⊆ inputs w' := by
    refine List.cons_subset.mpr ⟨List.mem_map_of_mem ha, fun i hi => ?_⟩
    have ⟨c, hm, he⟩ := List.mem_map.mp hi
    exact he ▸ hc c hm
  have hl := (List.subperm_of_subset (List.nodup_cons.mpr ⟨hn, h.nodup⟩) hs).length_le
  have hl' := h'.length_le
  simp only [inputs, List.length_cons, List.length_map] at hl
  omega

-- Observations of different times are counted the same in every window.
theorem mem_of_mem {w' : List NodeHealthObservation} (h : Window l w) (h' : Window l' w')
    (inj : ∀ a ∈ l, ∀ b ∈ l, a.occurredAt = b.occurredAt → a = b) (hs : ∀ c ∈ w, c ∈ l')
    (ha : a ∈ w') (hm : a ∈ l) : a ∈ w := by
  by_cases hi : a.inputFingerprint ∈ inputs w
  case pos =>
    have ⟨c, hc, he⟩ := List.mem_map.mp hi
    have hle := h.latest hc hm he.symm
    have hge := h'.latest ha (hs c hc) he
    exact inj c (h.mem hc) a hm (hge.antisymm hle) ▸ hc
  case neg =>
    have ⟨hl, hle⟩ := h.full hm hi
    have ⟨c, hc, hn⟩ := h.exists_left_out h' hl ha hi
    have hge := (h'.full (hs c hc) hn).right a ha
    exact inj c (h.mem hc) a hm (hge.antisymm <| hle c hc) ▸ hc

end Window

def failures (w : List NodeHealthObservation) : List NodeHealthObservation :=
  w.filter (·.classification.class.isFailure)

def successes (w : List NodeHealthObservation) : List NodeHealthObservation :=
  w.filter (!·.classification.class.isFailure)

def failureRate (w : List NodeHealthObservation) : ℚ :=
  if w = [] then 0 else (failures w).length / w.length

-- The strong failures of the last five minutes.
def strong (w : List NodeHealthObservation) (now : Time) : List NodeHealthObservation :=
  (failures w).filter fun o =>
    now - .minutes 5 ≤ o.occurredAt && o.classification.class = .strongNodeLocal

def quarantines (w : List NodeHealthObservation) (now : Time) : Bool :=
  (5 ≤ (failures w).length &&
    (if 2 ≤ distinctSchedules (failures w) then 4 else 6) ≤ distinctInputs (failures w) &&
    3 / 5 ≤ failureRate w) ||
  (3 ≤ distinctInputs (strong w now) && 2 ≤ distinctSchedules (strong w now))

def suspects (w : List NodeHealthObservation) : Bool :=
  3 ≤ (failures w).length && 3 ≤ distinctInputs (failures w) && 1 / 2 ≤ failureRate w

-- What the ten latest observations come to.
def assess (w : List NodeHealthObservation) (now : Time) : NodeHealthEvaluation where
  decision               :=
    if quarantines w now then .autoQuarantine else if suspects w then .suspect else .healthy
  distinctFailedInputs   := distinctInputs (failures w)
  distinctSchedules      := distinctSchedules (failures w)
  consideredObservations := w.length
  failureRate            := failureRate w

theorem evaluateNodeHealth_eq {order : HashOrder} {obs : List NodeHealthObservation} :
    evaluateNodeHealth order obs now = assess (recent order obs now) now :=
  rfl

theorem recent_eq {order : HashOrder} {obs : List NodeHealthObservation} :
    recent order obs now = ((order.arrange (latestByInput (scored obs now))).insertionSort
      (·.occurredAt ≤ ·.occurredAt)).reverse.take 10 :=
  rfl

theorem window_recent {order : HashOrder} {obs : List NodeHealthObservation} :
    Window (scored obs now) (recent order obs now) :=
  ⟨_, choice_latestByInput, .of_sort <| order.perm _⟩

section Perm

variable {w' : List NodeHealthObservation}

theorem distinctInputs_perm (h : w.Perm w') : distinctInputs w = distinctInputs w' :=
  (h.map _).dedup.length_eq

theorem distinctSchedules_perm (h : w.Perm w') : distinctSchedules w = distinctSchedules w' :=
  (h.map _).dedup.length_eq

theorem assess_congr (hl : w.length = w'.length)
    (hf : (failures w).length = (failures w').length)
    (hi : distinctInputs (failures w) = distinctInputs (failures w'))
    (hs : distinctSchedules (failures w) = distinctSchedules (failures w'))
    (hq : quarantines w now = quarantines w' now) : assess w now = assess w' now := by
  have hr : failureRate w = failureRate w' := by
    simp only [failureRate, hf, hl, ← List.length_eq_zero_iff]
  have hp : suspects w = suspects w' := by
    simp only [suspects, hf, hi, hr]
  simp only [assess, hl, hi, hs, hq, hp, hr]

theorem assess_perm (h : w.Perm w') : assess w now = assess w' now := by
  have hf : (failures w).Perm (failures w') := h.filter _
  have hs : (strong w now).Perm (strong w' now) := hf.filter _
  have hr : failureRate w = failureRate w' := by
    simp only [failureRate, hf.length_eq, h.length_eq, ← List.length_eq_zero_iff]
  refine assess_congr h.length_eq hf.length_eq (distinctInputs_perm hf)
    (distinctSchedules_perm hf) ?_
  simp only [quarantines, hf.length_eq, hr, distinctInputs_perm hf, distinctSchedules_perm hf,
    distinctInputs_perm hs, distinctSchedules_perm hs]

end Perm

-- Every way to decide the ties among the latest observations is that of some order.
theorem exists_order {obs : List NodeHealthObservation}
    (h : IsTop (·.occurredAt) 10 (latestByInput (scored obs now)) w) :
    ∃ order, evaluateNodeHealth order obs now = assess w now := by
  have ⟨l', hp, hw⟩ := h.exists_sort
  refine ⟨.of hp, ?_⟩
  have he : (HashOrder.of hp).arrange (latestByInput (scored obs now)) = l' := if_pos rfl
  rw [evaluateNodeHealth_eq, recent_eq, he]
  exact assess_perm hw

theorem Window.exists_obs {obs : List NodeHealthObservation} (h : Window (scored obs now) w) :
    ∃ obs' order, obs'.Perm obs ∧ evaluateNodeHealth order obs' now = assess w now := by
  have ⟨kept, hc, ht⟩ := h
  have hs : kept.Subperm obs := by
    refine List.subperm_of_subset (.of_map _ hc.nodup) fun o ho => ?_
    exact (List.mem_filter.mp <| hc.mem o ho).left
  have hp := List.subperm_append_diff_self_of_count_le fun o _ => hs.count_le o
  have hk : scored kept now = kept :=
    List.filter_eq_self.mpr fun o ho => (List.mem_filter.mp <| hc.mem o ho).right
  have hl : latestByInput (scored (kept ++ obs.diff kept) now) = kept := by
    rw [scored, List.filter_append]
    rw [scored] at hk
    rw [hk]
    refine hc.latestByInput fun o ho => ?_
    have ⟨ho, hs⟩ := List.mem_filter.mp ho
    exact List.mem_filter.mpr ⟨hp.mem_iff.mp <| List.mem_append_right _ ho, hs⟩
  have ⟨order, ho⟩ := exists_order <| hl.symm ▸ ht
  exact ⟨kept ++ obs.diff kept, order, hp, ho⟩

theorem scored_inj {obs : List NodeHealthObservation} (hd : (obs.map (·.occurredAt)).Nodup) :
    ∀ a ∈ scored obs now, ∀ b ∈ scored obs now, a.occurredAt = b.occurredAt → a = b :=
  fun _ ha _ hb he =>
    List.inj_on_of_nodup_map hd (List.mem_filter.mp ha).left (List.mem_filter.mp hb).left he

theorem Window.distinctInputs_failures (h : Window l w) :
    distinctInputs (failures w) = (failures w).length := by
  have nd : ((failures w).map (·.inputFingerprint)).Nodup :=
    h.nodup.sublist <| List.filter_sublist.map _
  rw [distinctInputs, nd.dedup, List.length_map]

-- Whatever is shown of two windows is the same.
def Agree (w w' : List NodeHealthObservation) (now : Time) : Prop :=
  (failures w).length = (failures w').length ∧
  distinctSchedules (failures w) = distinctSchedules (failures w') ∧
  quarantines w now = quarantines w' now

theorem assess_autoQuarantine :
    (assess w now).decision = .autoQuarantine ↔ quarantines w now := by
  simp only [assess]
  cases quarantines w now <;> cases suspects w <;> simp

theorem Window.assess_eq_iff {w' : List NodeHealthObservation} (h : Window l w)
    (h' : Window l w') : assess w now = assess w' now ↔ Agree w w' now := by
  constructor
  case mp =>
    intro he
    have hi := congrArg NodeHealthEvaluation.distinctFailedInputs he
    have hs := congrArg NodeHealthEvaluation.distinctSchedules he
    have hd := congrArg NodeHealthEvaluation.decision he
    have hi : distinctInputs (failures w) = distinctInputs (failures w') := hi
    rw [h.distinctInputs_failures, h'.distinctInputs_failures] at hi
    refine ⟨hi, hs, Bool.eq_iff_iff.mpr ?_⟩
    rw [← assess_autoQuarantine, ← assess_autoQuarantine, hd]
  case mpr =>
    intro ⟨hf, hs, hq⟩
    have hi : distinctInputs (failures w) = distinctInputs (failures w') := by
      rw [h.distinctInputs_failures, h'.distinctInputs_failures, hf]
    have hc (b) (hb : b ∈ l) : b.inputFingerprint ∈ inputs l := List.mem_map_of_mem hb
    have hl := (h.length_le_length h' hc).antisymm (h'.length_le_length h hc)
    exact assess_congr hl hf hi hs hq

-- The evaluation is one of the set of observations as long as ties make no difference.

end NodeHealthObservation

namespace Sample

def seen (code : Option FailureCode) (input : String) (scheduleId : Uuid) (occurredAt : Time) :
    NodeHealthObservation where
  scheduleId        := scheduleId
  inputFingerprint  := input
  occurredAt        := occurredAt
  classification    := code.elim (classifyResult .succeeded none) classifyFailureCode
  retracted         := false
  clusterSuppressed := false

def broken (input : String) (scheduleId : Uuid) : NodeHealthObservation :=
  seen (some .executorStartFailed) input scheduleId 0

def backwards : HashOrder where
  arrange := List.reverse
  perm    := List.reverse_perm

end Sample

open Sample

-- Which observation of an input is the latest, and which inputs are the ten latest, is left to the
-- order of the list and of the hash map.

end Scheduler
