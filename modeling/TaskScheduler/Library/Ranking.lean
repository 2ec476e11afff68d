import Mathlib

-- Ranks and ordered selections of lists, as window functions and `ORDER BY ... LIMIT` compute them.
namespace Ranking

variable {α β κ : Type} [LinearOrder β] [DecidableEq κ]

-- `ROW_NUMBER() OVER (PARTITION BY key ORDER BY age)`
def rank (key : α → κ) (age : α → β) (l : List α) (a : α) : Nat :=
  l.countP fun b => key b = key a && age b ≤ age a

-- `ORDER BY f LIMIT n`
def first (f : α → β) (n : Nat) (l : List α) : List α :=
  l.insertionSort (f · ≤ f ·) |>.take n

-- `min_by_key(f)`
def least (f : α → β) (l : List α) : Option α :=
  l.insertionSort (f · ≤ f ·) |>.head?

variable {key : α → κ} {age f : α → β} {l : List α} {a b : α} {n : Nat}

-- At most `n` elements of a partition have a rank up to `n`.
theorem countP_rank_le (k : κ) : l.countP (fun a => key a = k && rank key age l a ≤ n) ≤ n := by
  cases hm : (l.filter fun a => key a = k && rank key age l a ≤ n).argmax age
  case none =>
    rw [List.argmax_eq_none] at hm
    rw [List.countP_eq_length_filter, hm]
    exact n.zero_le
  case some a =>
    -- All of them are counted by the rank of the last one.
    have ha := List.argmax_mem hm
    simp only [List.mem_filter, Bool.and_eq_true, decide_eq_true_eq] at ha
    refine le_trans (List.countP_mono_left fun b hb hp => ?_) ha.right.right
    have hp' := hp
    simp only [Bool.and_eq_true, decide_eq_true_eq] at hp
    have hle : age b ≤ age a := List.le_of_mem_argmax (List.mem_filter.mpr ⟨hb, hp'⟩) hm
    simp [hp.left, ha.right.left, hle]

-- The rank is by one larger than the number of elements in front.
theorem rank_eq (nd : (l.map age).Nodup) (ha : a ∈ l) :
    rank key age l a = l.countP (fun b => key b = key a && age b < age a) + 1 := by
  obtain ⟨l₁, l₂, rfl⟩ := List.append_of_mem ha
  have hn : ∀ b ∈ l₁ ++ l₂, age b ≠ age a := by
    rw [List.map_append, List.map_cons, List.nodup_middle, List.nodup_cons, ← List.map_append] at nd
    exact fun b hb he => nd.left <| List.mem_map.mpr ⟨b, hb, he⟩
  have hc (l : List α) (hl : ∀ b ∈ l, b ∈ l₁ ++ l₂) :
      l.countP (fun b => key b = key a && age b ≤ age a) =
        l.countP fun b => key b = key a && age b < age a :=
    List.countP_congr fun b hb => by simp [lt_iff_le_and_ne, hn b (hl b hb)]
  simp only [rank, List.countP_append, List.countP_cons, hc l₁ (by simp +contextual),
    hc l₂ (by simp +contextual)]
  simp [Nat.add_assoc]

theorem mem_take_sorted (hs : l.Pairwise (f · < f ·)) :
    a ∈ l.take n ↔ a ∈ l ∧ l.countP (f · < f a) < n := by
  induction l generalizing n
  case nil => simp
  case cons b l ih =>
    have ⟨hb, hs⟩ := List.pairwise_cons.mp hs
    cases n
    case zero => simp
    case succ n =>
      rw [List.take_succ_cons, List.mem_cons, ih hs, List.mem_cons, List.countP_cons]
      by_cases ha : a = b
      case pos =>
        have hz : l.countP (f · < f b) = 0 :=
          List.countP_eq_zero.mpr fun c hc => by simpa using (hb c hc).le
        simp [ha, hz]
      case neg =>
        simp only [ha, false_or]
        refine and_congr_right fun hm => ?_
        simp [hb a hm]

-- An element is among the first `n` if fewer than `n` come before it.
theorem mem_first (nd : (l.map f).Nodup) : a ∈ first f n l ↔ a ∈ l ∧ l.countP (f · < f a) < n := by
  have hp : (l.insertionSort (f · ≤ f ·)).Perm l := List.perm_insertionSort _ l
  have hs : (l.insertionSort (f · ≤ f ·)).Pairwise (f · < f ·) := by
    refine (List.pairwise_insertionSort _ l).imp₂ (fun _ _ h₁ h₂ => lt_of_le_of_ne h₁ h₂) ?_
    exact List.pairwise_map.mp <| (hp.map f).nodup_iff.mpr nd
  rw [first, mem_take_sorted hs, hp.mem_iff, hp.countP_eq]

theorem mem_of_mem_first (h : a ∈ first f n l) : a ∈ l :=
  (List.mem_insertionSort _).mp <| List.mem_of_mem_take h

theorem nodup_first {γ : Type} {g : α → γ} (h : (l.map g).Nodup) : ((first f n l).map g).Nodup := by
  have hp : (l.insertionSort (f · ≤ f ·)).Perm l := List.perm_insertionSort _ l
  exact ((hp.map g).nodup_iff.mpr h).sublist <| (List.take_sublist n _).map g

theorem first_ne_nil (hn : 0 < n) (ha : a ∈ l) : first f n l ≠ [] := by
  intro h
  cases List.take_eq_nil_iff.mp h
  case inl h => omega
  case inr h => exact List.ne_nil_of_mem ((List.mem_insertionSort _).mpr ha) h

theorem least_eq_none : least f l = none ↔ l = [] := by
  rw [least, List.head?_eq_none_iff, ← List.length_eq_zero_iff, List.length_insertionSort,
    List.length_eq_zero_iff]

theorem mem_of_least (h : least f l = some a) : a ∈ l :=
  (List.mem_insertionSort _).mp <| List.mem_of_mem_head? h

section Top

variable {l' w : List α}

-- `w` are the `n` greatest elements of `l`, or all if there are fewer; ties are decided somehow.
def IsTop (f : α → β) (n : Nat) (l w : List α) : Prop :=
  ∃ rest, l.Perm (w ++ rest) ∧ w.length = min n l.length ∧ ∀ a ∈ w, ∀ b ∈ rest, f b ≤ f a

namespace IsTop

theorem length (h : IsTop f n l w) : w.length = min n l.length :=
  have ⟨_, _, hl, _⟩ := h
  hl

theorem subset (h : IsTop f n l w) (ha : a ∈ w) : a ∈ l := by
  have ⟨_, hp, _, _⟩ := h
  exact hp.mem_iff.mpr <| List.mem_append_left _ ha

theorem nodup {γ : Type} {g : α → γ} (h : IsTop f n l w) (nd : (l.map g).Nodup) :
    (w.map g).Nodup := by
  have ⟨rest, hp, _, _⟩ := h
  have hp := (hp.map g).nodup_iff.mp nd
  rw [List.map_append] at hp
  exact hp.of_append_left

theorem le (h : IsTop f n l w) (ha : a ∈ w) (hb : b ∈ l) (hn : b ∉ w) : f b ≤ f a := by
  have ⟨rest, hp, _, hle⟩ := h
  have hb := List.mem_append.mp <| hp.mem_iff.mp hb
  exact hle a ha b <| hb.resolve_left hn

-- Only if there are enough others is an element left out.
theorem length_eq (h : IsTop f n l w) (hb : b ∈ l) (hn : b ∉ w) : w.length = n := by
  have ⟨rest, hp, hl, _⟩ := h
  have hb := (List.mem_append.mp <| hp.mem_iff.mp hb).resolve_left hn
  have hr := List.length_pos_of_mem hb
  have hp := hp.length_eq
  rw [List.length_append] at hp
  omega

theorem of_sort (h : l'.Perm l) :
    IsTop f n l ((l'.insertionSort (f · ≤ f ·)).reverse.take n) := by
  have hp := (List.reverse_perm _).trans <| (List.perm_insertionSort (f · ≤ f ·) l').trans h
  refine ⟨(l'.insertionSort (f · ≤ f ·)).reverse.drop n, ?_, ?_, ?_⟩
  case refine_1 => exact List.take_append_drop n _ ▸ hp.symm
  case refine_2 => rw [List.length_take, hp.length_eq]
  case refine_3 =>
    have hs : (l'.insertionSort (f · ≤ f ·)).reverse.Pairwise (f · ≥ f ·) :=
      List.pairwise_reverse.mpr <| List.pairwise_insertionSort (f · ≤ f ·) l'
    rw [← List.take_append_drop n (l'.insertionSort _).reverse, List.pairwise_append] at hs
    exact hs.right.right

-- Every way to decide the ties comes from some order of the elements before they are sorted.
theorem exists_sort (h : IsTop f n l w) :
    ∃ l' : List α, l'.Perm l ∧ ((l'.insertionSort (f · ≤ f ·)).reverse.take n).Perm w := by
  have ⟨rest, hp, hl, hle⟩ := h
  let sort (l : List α) := l.insertionSort (f · ≤ f ·)
  have hsort (l : List α) : (sort l).Perm l := List.perm_insertionSort _ l
  refine ⟨sort rest ++ sort w, ?_, ?_⟩
  case refine_1 =>
    have hx := ((hsort rest).append (hsort w)).trans List.perm_append_comm
    exact hx.trans hp.symm
  case refine_2 =>
    have hs : (sort rest ++ sort w).Pairwise (f · ≤ f ·) := by
      have hs (l : List α) : (sort l).Pairwise (f · ≤ f ·) := List.pairwise_insertionSort _ l
      refine List.pairwise_append.mpr ⟨hs rest, hs w, ?_⟩
      intro b hb a ha
      exact hle a ((hsort w).mem_iff.mp ha) b ((hsort rest).mem_iff.mp hb)
    rw [hs.insertionSort_eq, List.reverse_append]
    have hp := hp.length_eq
    rw [List.length_append] at hp
    have hw : (sort w).reverse.length = w.length := by rw [List.length_reverse, (hsort w).length_eq]
    rcases Nat.le_total n l.length with hn | hn
    case inl =>
      have hx : (sort w).reverse.length = n := by omega
      rw [List.take_append_of_le_length hx.ge, List.take_of_length_le hx.le]
      exact (List.reverse_perm _).trans (hsort w)
    case inr =>
      have hr : rest = [] := List.length_eq_zero_iff.mp <| by omega
      subst hr
      have hx : (sort w).reverse.length ≤ n := by omega
      simp only [sort, List.insertionSort_nil, List.reverse_nil, List.append_nil]
      rw [List.take_of_length_le hx]
      exact (List.reverse_perm _).trans (hsort w)

end IsTop

end Top

end Ranking
