import Mathlib

-- Finite maps, with their entries in the order of the keys.
structure SortedMap (κ α : Type) [LinearOrder κ] where
  entries : List (κ × α)
  sorted  : (entries.map Prod.fst).Pairwise (· < ·)

namespace SortedMap

variable {κ α β ε : Type} [LinearOrder κ]

-- An entry with the same key is replaced.
def insertEntry (key : κ) (value : α) : List (κ × α) → List (κ × α)
  | []           => [(key, value)]
  | (k, v) :: es =>
    if key < k then (key, value) :: (k, v) :: es
    else if key = k then (key, value) :: es
    else (k, v) :: insertEntry key value es

def traverseEntries (f : α → Except ε β) : List (κ × α) → Except ε (List (κ × β))
  | []           => .ok []
  | (k, v) :: es =>
    match f v with
    | .error e => .error e
    | .ok v'   =>
      match traverseEntries f es with
      | .error e => .error e
      | .ok es'  => .ok ((k, v') :: es')

variable {key : κ} {value : α} {entries : List (κ × α)}

theorem mem_keys_insertEntry {k : κ} (h : k ∈ (insertEntry key value entries).map Prod.fst) :
    k = key ∨ k ∈ entries.map Prod.fst := by
  induction entries
  case nil => simpa [insertEntry] using h
  case cons e es hi =>
    rw [insertEntry] at h
    split_ifs at h <;> grind

theorem sorted_insertEntry (h : (entries.map Prod.fst).Pairwise (· < ·)) :
    ((insertEntry key value entries).map Prod.fst).Pairwise (· < ·) := by
  induction entries
  case nil => simp [insertEntry]
  case cons e es hi =>
    have ⟨he, hs⟩ := List.pairwise_cons.mp h
    rw [insertEntry]
    split_ifs
    case pos hl => exact .cons (List.forall_mem_cons.mpr ⟨hl, fun k hk => hl.trans (he k hk)⟩) h
    case pos hk =>
      rw [hk]
      exact .cons he hs
    case neg hl hk =>
      apply List.Pairwise.cons _ (hi hs)
      intro k hm
      cases mem_keys_insertEntry hm
      case inl h => exact h ▸ lt_of_le_of_ne (not_lt.mp hl) (Ne.symm hk)
      case inr h => exact he k h

theorem lookup_insertEntry {k : κ} : (insertEntry key value entries).lookup k =
    if k = key then some value else entries.lookup k := by
  induction entries
  case nil => grind [insertEntry]
  case cons e es hi =>
    rw [insertEntry]
    split_ifs <;> grind

omit [LinearOrder κ] in
theorem keys_traverseEntries {f : α → Except ε β} {es : List (κ × β)}
    (h : traverseEntries f entries = .ok es) : es.map Prod.fst = entries.map Prod.fst := by
  induction entries generalizing es
  case nil =>
    cases h
    rfl
  case cons e entries hi =>
    simp only [traverseEntries] at h
    split at h
    case h_1 => contradiction
    case h_2 =>
      split at h
      case h_1 => contradiction
      case h_2 hs =>
        cases h
        simp [hi hs]

omit [LinearOrder κ] in
theorem exists_traverseEntries {f : α → Except ε β} :
    (∃ es, traverseEntries f entries = .ok es) ↔ ∀ e ∈ entries, ∃ b, f e.2 = .ok b := by
  induction entries
  case nil => simp [traverseEntries]
  case cons e entries hi =>
    rw [List.forall_mem_cons, ← hi, traverseEntries]
    cases f e.2
    case error => simp
    case ok => cases traverseEntries f entries <;> simp

def empty : SortedMap κ α where
  entries := []
  sorted  := .nil

variable (m : SortedMap κ α)

def isEmpty : Bool :=
  m.entries.isEmpty

def keys : List κ :=
  m.entries.map Prod.fst

def get? (key : κ) : Option α :=
  m.entries.lookup key

def insert (key : κ) (value : α) : SortedMap κ α where
  entries := insertEntry key value m.entries
  sorted  := sorted_insertEntry m.sorted

def extend (n : SortedMap κ α) : SortedMap κ α :=
  n.entries.foldl (fun m e => m.insert e.1 e.2) m

-- The first error on the way ends the traversal.
def traverse (f : α → Except ε β) : Except ε (SortedMap κ β) :=
  match h : traverseEntries f m.entries with
  | .error e => .error e
  | .ok es   => .ok ⟨es, keys_traverseEntries h ▸ m.sorted⟩

variable {m} {n : SortedMap κ α}

theorem keys_traverse {f : α → Except ε β} {r : SortedMap κ β} (h : m.traverse f = .ok r) :
    r.keys = m.keys := by
  unfold traverse at h
  split at h
  case h_1 => contradiction
  case h_2 hs =>
    cases h
    exact keys_traverseEntries hs

theorem exists_traverse {f : α → Except ε β} :
    (∃ r, m.traverse f = .ok r) ↔ ∀ e ∈ m.entries, ∃ b, f e.2 = .ok b := by
  rw [← exists_traverseEntries, traverse]
  split <;> simp [*]

-- A map that is written over other entries is found before them.
theorem lookup_foldl_insertEntry {k : κ} :
    (m.entries.foldl (fun es e => insertEntry e.1 e.2 es) entries).lookup k =
      (m.get? k).or (entries.lookup k) := by
  have hs := m.sorted
  unfold get?
  generalize m.entries = es at hs ⊢
  induction es generalizing entries
  case nil => rfl
  case cons e es hi =>
    have ⟨he, hs⟩ := List.pairwise_cons.mp hs
    rw [List.foldl_cons, hi hs, lookup_insertEntry, List.lookup_cons]
    by_cases hk : k = e.1
    case neg =>
      rw [if_neg hk, beq_false_of_ne hk]
    case pos =>
      have hn : es.lookup k = none := by
        rw [List.lookup_eq_none_iff]
        intro p hp
        have hl : e.1 < p.1 := he p.1 (List.mem_map_of_mem hp)
        simpa [hk] using hl.ne
      rw [hn]
      simp [hk]

end SortedMap
