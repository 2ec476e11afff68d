import TaskScheduler.Library.Fallible

-- Lists that are read page by page.
namespace Paging

structure Page (α κ : Type) where
  items : List α
  next  : Option κ

-- Pages that are requested with each other's cursors. The state may change between two requests,
-- which are numbered for that, and there may be no further request.
inductive Walk {α κ ε : Type} (fetch : Nat → Option κ → Except ε (Page α κ)) :
    Nat → Option κ → List (Page α κ) → Prop
  | stop : Walk fetch i cursor []
  | last : fetch i cursor = .ok page → page.next = none → Walk fetch i cursor [page]
  | next : fetch i cursor = .ok page → page.next = some c → Walk fetch (i + 1) (some c) pages →
    Walk fetch i cursor (page :: pages)

section Walk

variable {α κ ε : Type} {page : Page α κ} {pages pages' : List (Page α κ)} {cursor : Option κ}
  {c : κ} {fetch : Nat → Option κ → Except ε (Page α κ)} {i : Nat}

def items (pages : List (Page α κ)) : List α :=
  pages.flatMap (·.items)

-- The last page has no cursor.
def IsComplete (pages : List (Page α κ)) : Prop :=
  ∃ page, pages.getLast? = some page ∧ page.next = none

theorem not_isComplete_nil : ¬IsComplete (α := α) (κ := κ) [] := by
  simp [IsComplete]

theorem isComplete_singleton : IsComplete [page] ↔ page.next = none := by
  simp [IsComplete]

theorem isComplete_cons (h : page.next = some c) :
    IsComplete (page :: pages) ↔ IsComplete pages := by
  cases pages
  case nil => simp [IsComplete, h]
  case cons => simp [IsComplete, List.getLast?_cons_cons]

theorem Walk.unique (w : Walk fetch i cursor pages) (w' : Walk fetch i cursor pages')
    (h : IsComplete pages) (h' : IsComplete pages') : pages' = pages := by
  induction w generalizing pages'
  case stop => exact absurd h not_isComplete_nil
  case last hf hn =>
    cases w'
    case stop => exact absurd h' not_isComplete_nil
    case last _ hf' =>
      cases hf.symm.trans hf'
      rfl
    case next hn' _ hf' =>
      cases hf.symm.trans hf'
      simp [hn] at hn'
  case next hf hn _ hi =>
    cases w'
    case stop => exact absurd h' not_isComplete_nil
    case last hn' hf' =>
      cases hf.symm.trans hf'
      simp [hn] at hn'
    case next hn' w' hf' =>
      cases hf.symm.trans hf'
      cases hn.symm.trans hn'
      rw [hi w' ((isComplete_cons hn).mp h) ((isComplete_cons hn).mp h')]

end Walk

section Keyset

variable {ρ κ : Type} [LinearOrder κ] {key : ρ → κ} {rows : List ρ} {cursor : Option κ} {n : Nat}
  {r a : ρ}

def IsAfter (key : ρ → κ) (cursor : Option κ) (r : ρ) : Prop :=
  ∀ c ∈ cursor, c < key r

instance : Decidable (IsAfter key cursor r) :=
  inferInstanceAs (Decidable (∀ c ∈ cursor, c < key r))

-- The rows after the cursor, in the order of their keys.
def following (key : ρ → κ) (cursor : Option κ) (rows : List ρ) : List ρ :=
  (rows.filter fun r => IsAfter key cursor r).insertionSort (key · ≤ key ·)

theorem mem_following : r ∈ following key cursor rows ↔ r ∈ rows ∧ IsAfter key cursor r := by
  simp [following, List.mem_insertionSort]

theorem pairwise_following (nd : (rows.map key).Nodup) :
    (following key cursor rows).Pairwise (key · < key ·) := by
  have hp := List.perm_insertionSort (key · ≤ key ·) (rows.filter fun r => IsAfter key cursor r)
  have nd : ((following key cursor rows).map key).Nodup :=
    (hp.map key).nodup_iff.mpr <| nd.sublist <| List.filter_sublist.map key
  have hs : (following key cursor rows).Pairwise (key · ≤ key ·) :=
    List.pairwise_insertionSort _ _
  exact hs.imp₂ (fun _ _ hle hne => lt_of_le_of_ne hle hne) <| List.pairwise_map.mp nd

section Length

variable {k : κ} (h : ∀ c ∈ cursor, c < k)

include h

theorem filter_isAfter : rows.filter (fun r => IsAfter key (some k) r) =
    (rows.filter fun r => IsAfter key cursor r).filter fun r => IsAfter key (some k) r := by
  rw [List.filter_filter]
  refine List.filter_congr fun r _ => ?_
  rw [Bool.eq_iff_iff, Bool.and_eq_true, decide_eq_true_iff, decide_eq_true_iff]
  exact ⟨fun hk => ⟨hk, fun c hc => (h c hc).trans <| hk k rfl⟩, And.left⟩

theorem length_following_le :
    (following key (some k) rows).length ≤ (following key cursor rows).length := by
  rw [following, following, List.length_insertionSort, List.length_insertionSort, filter_isAfter h]
  exact List.length_filter_le _ _

theorem length_following_lt (hr : r ∈ rows) (hk : key r = k) :
    (following key (some k) rows).length < (following key cursor rows).length := by
  rw [following, following, List.length_insertionSort, List.length_insertionSort, filter_isAfter h]
  refine List.length_filter_lt_length_iff_exists.mpr ⟨r, ?_, ?_⟩
  case refine_1 => exact List.mem_filter.mpr ⟨hr, decide_eq_true fun c hc => hk ▸ h c hc⟩
  case refine_2 => simp [IsAfter, hk]

end Length

-- What one page of `items` leaves to the pages after it.
structure Step (key : ρ → κ) (cursor : Option κ) (rows items : List ρ) (next : Option κ) :
    Prop where
  mem    : ∀ r ∈ items, r ∈ rows ∧ IsAfter key cursor r
  sorted : items.Pairwise (key · < key ·)
  covers : ∀ r ∈ rows, IsAfter key cursor r → r ∈ items ∨ ∃ c ∈ next, c < key r
  bound  : ∀ c ∈ next, (∃ r ∈ items, key r = c) ∧ ∀ r ∈ items, key r ≤ c

theorem step_following (nd : (rows.map key).Nodup) (hn : 0 < n) :
    let found := following key cursor rows
    Step key cursor rows (found.take n) <|
      if n < found.length then (found.take n).getLast?.map key else none := by
  intro found
  have hs : found.Pairwise (key · < key ·) := pairwise_following nd
  have hs' : (found.take n ++ found.drop n).Pairwise (key · < key ·) :=
    (List.take_append_drop n found).symm ▸ hs
  have ⟨hs₁, _, hs₂⟩ := List.pairwise_append.mp hs'
  constructor
  case mem => exact fun r hr => mem_following.mp <| List.mem_of_mem_take hr
  case sorted => exact hs₁
  case covers =>
    intro r hr ha
    have hm : r ∈ found := mem_following.mpr ⟨hr, ha⟩
    rw [← List.take_append_drop n found, List.mem_append] at hm
    refine hm.imp_right fun hd => ?_
    have hlen := List.length_pos_of_mem hd
    rw [List.length_drop] at hlen
    have hne : found.take n ≠ [] := List.ne_nil_of_length_pos <| by
      rw [List.length_take]
      omega
    rw [if_pos (by omega), List.getLast?_eq_some_getLast hne]
    exact ⟨_, rfl, hs₂ _ (List.getLast_mem hne) r hd⟩
  case bound =>
    intro c hc
    split at hc
    case isFalse => contradiction
    case isTrue =>
      have ⟨r, hr, hk⟩ := Option.map_eq_some_iff.mp hc
      have ⟨init, he⟩ := List.getLast?_eq_some_iff.mp hr
      rw [he] at hs₁ ⊢
      refine ⟨⟨r, by simp, hk⟩, fun a ha => ?_⟩
      rcases List.mem_append.mp ha with ha | ha
      case inl => exact hk ▸ ((List.pairwise_append.mp hs₁).right.right a ha r <| by simp).le
      case inr => exact hk ▸ (List.mem_singleton.mp ha ▸ le_refl _)

end Keyset

-- A list whose rows are shown as views and whose cursors are texts for the keys of rows. The row
-- that tells whether there is a further page may be read along with the others.
structure Listing (ρ ν κ τ ε : Type) where
  key            : ρ → κ
  view           : ρ → Except ε ν
  encode         : ν → τ
  decode         : τ → Except ε κ
  readsLookAhead : Bool

theorem exists_getLast {α β : Type} {R : α → β → Prop} {l : List α} {l' : List β} {b : β}
    (h : List.Forall₂ R l l') (hb : l'.getLast? = some b) : ∃ a, l.getLast? = some a ∧ R a b := by
  rw [← List.head?_reverse] at hb ⊢
  have h := List.forall₂_reverse_iff.mpr h
  generalize l.reverse = m at h ⊢
  generalize l'.reverse = m' at h hb
  cases h
  case nil => contradiction
  case cons a b' _ _ hr _ =>
    cases hb
    exact ⟨_, rfl, ‹_›⟩

namespace Listing

variable {ρ ν κ τ ε : Type} [LinearOrder κ] {L : Listing ρ ν κ τ ε} {limit i : Nat}
  {rows : List ρ} {cursor : Option τ} {position : Option κ} {page : Page ν τ}
  {tables : Nat → List ρ} {pages : List (Page ν τ)}

def found (L : Listing ρ ν κ τ ε) (limit : Nat) (position : Option κ) (rows : List ρ) : List ρ :=
  (following L.key position rows).take (limit + 1)

def read (L : Listing ρ ν κ τ ε) (limit : Nat) (found : List ρ) : List ρ :=
  if L.readsLookAhead then found else found.take limit

def serve (L : Listing ρ ν κ τ ε) (limit : Nat) (rows : List ρ) (cursor : Option τ) :
    Except ε (Page ν τ) := do
  let position ← cursor.mapM L.decode
  let found := L.found limit position rows
  let views ← (L.read limit found).mapM L.view
  let items := views.take limit
  return ⟨items, if limit < found.length then items.getLast?.map L.encode else none⟩

-- A cursor leads back to the row it was made for.
def Lawful (L : Listing ρ ν κ τ ε) : Prop :=
  ∀ r v, L.view r = .ok v → L.decode (L.encode v) = .ok (L.key r)

def Shows (L : Listing ρ ν κ τ ε) (r : ρ) (v : ν) : Prop :=
  L.view r = .ok v

theorem serve_ok_iff : L.serve limit rows cursor = .ok page ↔
    ∃ position views, cursor.mapM L.decode = .ok position ∧
      List.Forall₂ L.Shows (L.read limit (L.found limit position rows)) views ∧
      page = ⟨views.take limit, if limit < (L.found limit position rows).length then
        (views.take limit).getLast?.map L.encode else none⟩ := by
  simp only [serve, Fallible.bind_eq_ok, pure, Except.pure, Except.ok.injEq, Fallible.mapM_eq_ok_iff]
  constructor
  case mp =>
    rintro ⟨position, hp, views, hv, rfl⟩
    exact ⟨position, views, hp, hv, rfl⟩
  case mpr =>
    rintro ⟨position, views, hp, hv, rfl⟩
    exact ⟨position, hp, views, hv, rfl⟩

-- A page is served if its cursor and all rows that are read for it are legible.
theorem exists_serve_iff : (∃ page, L.serve limit rows cursor = .ok page) ↔
    ∃ position, cursor.mapM L.decode = .ok position ∧
      ∀ r ∈ L.read limit (L.found limit position rows), ∃ v, L.Shows r v := by
  simp only [serve_ok_iff]
  constructor
  case mp =>
    rintro ⟨_, position, views, hp, hv, _⟩
    refine ⟨position, hp, fun r hr => ?_⟩
    have ⟨v, _, hv⟩ := Fallible.exists_of_forall₂ hv hr
    exact ⟨v, hv⟩
  case mpr =>
    rintro ⟨position, hp, hv⟩
    have ⟨views, hv⟩ := Fallible.exists_forall₂ hv
    exact ⟨_, position, views, hp, hv, rfl⟩

theorem take_read : (L.read limit (L.found limit position rows)).take limit =
    (following L.key position rows).take limit := by
  simp only [read, found]
  split <;> simp [List.take_take]

theorem mem_of_read {r : ρ} (h : r ∈ L.read limit (L.found limit position rows)) : r ∈ rows := by
  have h : r ∈ L.found limit position rows := by
    rw [read] at h
    split at h
    case isTrue => exact h
    case isFalse => exact List.mem_of_mem_take h
  exact (mem_following.mp <| List.mem_of_mem_take h).left

theorem lt_length_found : limit < (L.found limit position rows).length ↔
    limit < (following L.key position rows).length := by
  simp only [found, List.length_take]
  omega

theorem serve_step (hL : L.Lawful) (nd : (rows.map L.key).Nodup) (hn : 0 < limit)
    (h : L.serve limit rows cursor = .ok page) (hp : cursor.mapM L.decode = .ok position) :
    ∃ items next, List.Forall₂ L.Shows items page.items ∧
      page.next.mapM L.decode = .ok next ∧ Step L.key position rows items next := by
  have ⟨position', views, hp', hv, he⟩ := serve_ok_iff.mp h
  cases hp.symm.trans hp'
  have hv := List.forall₂_take limit hv
  rw [take_read] at hv
  refine ⟨_, _, he ▸ hv, ?_, step_following nd hn⟩
  rw [he]
  simp only [lt_length_found]
  split
  case isFalse => rfl
  case isTrue =>
    cases hl : (views.take limit).getLast?
    case none =>
      rw [List.getLast?_eq_none_iff] at hl
      rw [hl, List.forall₂_nil_right_iff] at hv
      rw [hv]
      rfl
    case some v =>
      have ⟨r, hr, hs⟩ := exists_getLast hv hl
      rw [hr]
      exact Fallible.map_eq_ok.mpr ⟨_, hL r v hs, rfl⟩

-- What a walk has shown: rows in their order, each at most once. A key that was there from the
-- beginning is among theirs, or it comes after all of them and there are further pages.
structure Shown (L : Listing ρ ν κ τ ε) (tables : Nat → List ρ) (i : Nat) (position : Option κ)
    (pages : List (Page ν τ)) (rows : List ρ) : Prop where
  shows  : List.Forall₂ L.Shows rows (items pages)
  sorted : rows.Pairwise (L.key · < L.key ·)
  mem    : ∀ r ∈ rows, IsAfter L.key position r ∧ ∃ j ≥ i, r ∈ tables j
  covers : ∀ r ∈ tables i, IsAfter L.key position r →
    (∃ a ∈ rows, L.key a = L.key r) ∨ ¬IsComplete pages ∧ ∀ a ∈ rows, L.key a < L.key r

section Tables

variable (hL : L.Lawful) (nd : ∀ j, ((tables j).map L.key).Nodup) (hn : 0 < limit)
  (grows : ∀ j, ∀ r ∈ tables j, ∃ r' ∈ tables (j + 1), L.key r' = L.key r)

include hL nd hn grows

theorem exists_shown (w : Walk (fun j => L.serve limit (tables j)) i cursor pages)
    (hp : cursor.mapM L.decode = .ok position) : ∃ rows, L.Shown tables i position pages rows := by
  induction w generalizing position
  case stop => exact ⟨[], .nil, .nil, nofun, fun _ _ _ => .inr ⟨not_isComplete_nil, nofun⟩⟩
  case last i cursor page hf hn' =>
    have ⟨rows, next, hs, hd, st⟩ := serve_step hL (nd i) hn hf hp
    rw [hn'] at hd
    cases hd
    refine ⟨rows, ?_, st.sorted, ?_, ?_⟩
    case refine_1 => simpa [items] using hs
    case refine_2 => exact fun r hr => ⟨(st.mem r hr).right, i, le_refl i, (st.mem r hr).left⟩
    case refine_3 =>
      intro r hr ha
      have hr := (st.covers r hr ha).resolve_right fun ⟨_, hc, _⟩ => nomatch hc
      exact .inl ⟨r, hr, rfl⟩
  case next i cursor page c pages hf hn' _ hi =>
    have ⟨rows, next, hs, hd, st⟩ := serve_step hL (nd i) hn hf hp
    rw [hn'] at hd
    have ⟨k, hk, he⟩ := Fallible.map_eq_ok.mp hd
    subst he
    have ⟨rows', sh⟩ := hi hd
    have ⟨⟨last, hl, hlk⟩, hle⟩ := st.bound k rfl
    have hlt : ∀ a ∈ rows, ∀ b ∈ rows', L.key a < L.key b :=
      fun a ha b hb => (hle a ha).trans_lt <| (sh.mem b hb).left k rfl
    refine ⟨rows ++ rows', ?_, ?_, ?_, ?_⟩
    case refine_1 => exact List.rel_append hs sh.shows
    case refine_2 => exact List.pairwise_append.mpr ⟨st.sorted, sh.sorted, hlt⟩
    case refine_3 =>
      intro r hr
      rcases List.mem_append.mp hr with hr | hr
      case inl => exact ⟨(st.mem r hr).right, i, le_refl i, (st.mem r hr).left⟩
      case inr =>
        have ⟨ha, j, hj, hm⟩ := sh.mem r hr
        refine ⟨fun c hc => ?_, j, by omega, hm⟩
        exact ((st.mem last hl).right c hc).trans <| hlk ▸ ha k rfl
    case refine_4 =>
      intro r hr ha
      rw [isComplete_cons hn']
      rcases st.covers r hr ha with hr | ⟨c, hc, hlt'⟩
      case inl => exact .inl ⟨r, List.mem_append_left _ hr, rfl⟩
      case inr =>
        cases hc
        have ⟨r', hr', he⟩ := grows i r hr
        rw [← he] at hlt' ⊢
        rcases sh.covers r' hr' (fun _ hc => Option.some.inj hc ▸ hlt') with ⟨a, hm, hk⟩ | ⟨hc, ha⟩
        case inl => exact .inl ⟨a, List.mem_append_right _ hm, hk⟩
        case inr =>
          refine .inr ⟨hc, fun a hm => ?_⟩
          exact (List.mem_append.mp hm).elim (fun hm => (hle a hm).trans_lt hlt') (ha a)

omit grows

-- Once there are no further keys, every page leaves fewer rows.
theorem exists_complete {N : Nat}
    (hc : ∀ j ≥ N, ∀ r ∈ tables j, ∃ r' ∈ tables N, L.key r' = L.key r)
    (hv : ∀ j, ∀ r ∈ tables j, ∃ v, L.Shows r v) (hp : cursor.mapM L.decode = .ok position) :
    ∃ pages, Walk (fun j => L.serve limit (tables j)) i cursor pages ∧ IsComplete pages := by
  generalize hm : N - i + (following L.key position (tables N)).length = m
  induction m using Nat.strong_induction_on generalizing i cursor position
  case _ m ih =>
    have ⟨page, hf⟩ : ∃ page, L.serve limit (tables i) cursor = .ok page :=
      exists_serve_iff.mpr ⟨position, hp, fun r hr => hv i r <| mem_of_read hr⟩
    cases hn' : page.next
    case none => exact ⟨[page], .last hf hn', isComplete_singleton.mpr hn'⟩
    case some c =>
      have ⟨rows, next, hs, hd, st⟩ := serve_step hL (nd i) hn hf hp
      rw [hn'] at hd
      have ⟨k, hk, he⟩ := Fallible.map_eq_ok.mp hd
      subst he
      have ⟨⟨last, hl, hlk⟩, _⟩ := st.bound k rfl
      have ⟨hmem, ha⟩ := st.mem last hl
      have ha : ∀ c ∈ position, c < k := hlk ▸ ha
      have hlt : N - (i + 1) + (following L.key (some k) (tables N)).length < m := by
        have hle : (following L.key (some k) (tables N)).length ≤
            (following L.key position (tables N)).length := length_following_le ha
        rcases Nat.lt_or_ge i N with hN | hN
        case inl => omega
        case inr =>
          have ⟨r', hr', he⟩ := hc i hN last hmem
          have hlt := length_following_lt ha hr' (he.trans hlk)
          omega
      have ⟨pages, w, h⟩ := ih _ hlt hd rfl
      exact ⟨page :: pages, .next hf hn' w, (isComplete_cons hn').mpr h⟩

end Tables

end Listing

end Paging
