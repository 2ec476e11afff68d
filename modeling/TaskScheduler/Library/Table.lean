import Mathlib

-- The primary key of a row.
class Keyed (α : Type) (κ : outParam Type) where
  key : α → κ

open Keyed

namespace Keyed

variable {α κ : Type} [Keyed α κ]

-- The statement that `f` leaves keys alone, in the form in which `Table.update` asks for it.
theorem keeps {f : α → α} (h : ∀ a, key (f a) = key a) : ∀ a, key (f a) = key a :=
  h

variable [DecidableEq κ]

-- Replaces the entry with key `k`.
def modify (l : List α) (k : κ) (f : α → α) : List α :=
  l.map fun a => if key a = k then f a else a

variable {l : List α} {a : α} {k : κ} {f : α → α}

theorem map_modify {β : Type} {g : α → β} (h : ∀ a, g (f a) = g a) :
    (modify l k f).map g = l.map g := by
  simp only [modify, List.map_map]
  refine List.map_congr_left fun a _ => ?_
  simp only [Function.comp_apply]
  split <;> simp [h]

@[simp]
theorem length_modify : (modify l k f).length = l.length :=
  List.length_map _

theorem forall_mem_modify {P : α → Prop} :
    (∀ b ∈ modify l k f, P b) ↔ ∀ a ∈ l, P (if key a = k then f a else a) :=
  List.forall_mem_map

theorem mem_modify {b : α} : b ∈ modify l k f ↔ ∃ a ∈ l, (if key a = k then f a else a) = b :=
  List.mem_map

theorem modify_eq_self (h : ∀ a ∈ l, key a ≠ k) : modify l k f = l := by
  conv => rhs; rw [← List.map_id l]
  exact List.map_congr_left fun a ha => by simp [h a ha]

theorem countP_modify_of_eq {p : α → Bool} (h : ∀ a, p (f a) = p a) :
    (modify l k f).countP p = l.countP p := by
  simp only [modify, List.countP_map]
  refine List.countP_congr fun a _ => ?_
  simp only [Function.comp_apply]
  split <;> simp [h]

-- Replacing one entry changes a count by what the entry itself contributes.
theorem countP_modify (nd : (l.map key).Nodup) (ha : a ∈ l) (hk : key a = k) (p : α → Bool) :
    (modify l k f).countP p + (p a).toNat = l.countP p + (p (f a)).toNat := by
  induction l
  case nil => contradiction
  case cons b l hi =>
    have ⟨hb, nd⟩ := List.nodup_cons.mp nd
    cases ha
    case head =>
      have hn : modify l k f = l := modify_eq_self fun c hc h =>
        hb <| List.mem_map.mpr ⟨c, hc, h.trans hk.symm⟩
      have hm : modify (a :: l) k f = f a :: modify l k f := by simp [modify, hk]
      rw [hm, hn, List.countP_cons, List.countP_cons]
      cases p a <;> cases p (f a) <;> simp
    case tail ha =>
      have hn : key b ≠ k := fun h => hb <| List.mem_map.mpr ⟨a, ha, hk.trans h.symm⟩
      have hm : modify (b :: l) k f = b :: modify l k f := by simp [modify, hn]
      have hi := hi nd ha
      rw [hm, List.countP_cons, List.countP_cons]
      omega

end Keyed

-- A relational table: rows in insertion order, no two of them with the same primary key.
@[ext]
structure Table (α : Type) {κ : outParam Type} [Keyed α κ] where
  rows  : List α
  nodup : (rows.map key).Nodup

namespace Table

variable {α κ : Type} [Keyed α κ] {t t₁ t₂ : Table α} {a b : α} {k : κ}

instance : EmptyCollection (Table α) where
  emptyCollection := ⟨[], by simp⟩

instance : Membership α (Table α) where
  mem t a := a ∈ t.rows

instance [DecidableEq α] : Decidable (a ∈ t) :=
  inferInstanceAs (Decidable (a ∈ t.rows))

instance {p : α → Prop} [DecidablePred p] : Decidable (∀ a ∈ t, p a) :=
  inferInstanceAs (Decidable (∀ a ∈ t.rows, p a))

instance {p : α → Prop} [DecidablePred p] : Decidable (∃ a ∈ t, p a) :=
  inferInstanceAs (Decidable (∃ a ∈ t.rows, p a))

theorem mem_rows : a ∈ t.rows ↔ a ∈ t :=
  .rfl

@[simp]
theorem rows_empty : (∅ : Table α).rows = [] :=
  rfl

@[simp]
theorem not_mem_empty : a ∉ (∅ : Table α) :=
  List.not_mem_nil

theorem key_injOn (ha : a ∈ t) (hb : b ∈ t) (h : key a = key b) : a = b :=
  List.inj_on_of_nodup_map t.nodup ha hb h

-- `SELECT … WHERE p`, in insertion order.
def select (t : Table α) (p : α → Bool) : List α :=
  t.rows.filter p

@[simp]
theorem mem_select {p : α → Bool} : a ∈ t.select p ↔ a ∈ t ∧ p a :=
  List.mem_filter

@[simp]
theorem select_empty {p : α → Bool} : (∅ : Table α).select p = [] :=
  rfl

theorem select_nodup {p : α → Bool} : ((t.select p).map key).Nodup :=
  t.nodup.sublist <| List.filter_sublist.map _

theorem select_congr {p q : α → Bool} (h : ∀ a ∈ t, p a = q a) : t.select p = t.select q :=
  List.filter_congr h

-- `UPDATE … SET f WHERE p`. The assignment must leave the primary key alone.
def update (t : Table α) (p : α → Bool) (f : α → α)
    (hf : ∀ a, key (f a) = key a := by exact Keyed.keeps fun _ => rfl) : Table α where
  rows  := t.rows.map fun a => if p a then f a else a
  nodup := by
    have h a : key (if p a then f a else a) = key a := by split <;> simp [hf]
    simpa [Function.comp_def, h] using t.nodup

section Update

variable {p q : α → Bool} {f : α → α} {hf : ∀ a, key (f a) = key a}

theorem mem_update : b ∈ t.update p f hf ↔ ∃ a ∈ t, (if p a then f a else a) = b :=
  List.mem_map

theorem mem_update_of_mem (h : a ∈ t) : (if p a then f a else a) ∈ t.update p f hf :=
  mem_update.mpr ⟨a, h, rfl⟩

@[simp]
theorem forall_mem_update {P : α → Prop} :
    (∀ b ∈ t.update p f hf, P b) ↔ ∀ a ∈ t, P (if p a then f a else a) :=
  List.forall_mem_map

-- An update that does not change which rows `q` selects maps over the selected rows.
theorem select_update (h : ∀ a, q (f a) = q a) :
    (t.update p f hf).select q = (t.select q).map fun a => if p a then f a else a := by
  simp only [select, update, List.filter_map]
  congr 1
  refine List.filter_congr fun a _ => ?_
  simp only [Function.comp_apply]
  split <;> simp [h]

-- Both tables show the same rows in the columns `g`.
def Same (g : α → β) (t t' : Table α) : Prop :=
  t'.rows.map g = t.rows.map g

namespace Same

variable {g : α → β} {t' t₁ t₂ : Table α}

theorem refl : Same g t t :=
  rfl

theorem trans (h₁ : Same g t t₁) (h₂ : Same g t₁ t₂) : Same g t t₂ :=
  Eq.trans h₂ h₁

theorem exists_left (h : Same g t t') (hb : b ∈ t') : ∃ a ∈ t, g a = g b := by
  have hm : g b ∈ t'.rows.map g := List.mem_map_of_mem hb
  rw [h] at hm
  exact List.mem_map.mp hm

theorem exists_right (h : Same g t t') (ha : a ∈ t) : ∃ b ∈ t', g b = g a :=
  exists_left (Eq.symm h) ha

-- An update that leaves the columns alone. It is recognized by its rows, so that no proof about keys
-- has to be found.
theorem of_update (ht : t'.rows = t.rows.map fun a => if p a then f a else a)
    (h : ∀ a ∈ t, p a → g (f a) = g a) : Same g t t' := by
  simp only [Same, ht, List.map_map]
  refine List.map_congr_left fun a ha => ?_
  simp only [Function.comp_apply]
  split
  case isTrue hp => exact h a ha hp
  case isFalse => rfl

end Same

-- The rows of `t` are followed by new ones that satisfy `P`, as far as the columns `g` show.
def Extends (g : α → β) (P : β → Prop) (t t' : Table α) : Prop :=
  ∃ new, t'.rows.map g = t.rows.map g ++ new ∧ ∀ b ∈ new, P b

namespace Extends

variable {g : α → β} {P : β → Prop} {t' t₁ t₂ : Table α}

theorem of_same (h : Same g t t') : Extends g P t t' :=
  ⟨[], by simpa [Same] using h, nofun⟩

theorem trans (h₁ : Extends g P t t₁) (h₂ : Extends g P t₁ t₂) : Extends g P t t₂ := by
  obtain ⟨new₁, he₁, hp₁⟩ := h₁
  obtain ⟨new₂, he₂, hp₂⟩ := h₂
  refine ⟨new₁ ++ new₂, by rw [he₂, he₁, List.append_assoc], fun b hb => ?_⟩
  rcases List.mem_append.mp hb with hb | hb
  case inl => exact hp₁ b hb
  case inr => exact hp₂ b hb

theorem exists_left (h : Extends g P t t') (hb : b ∈ t') : (∃ a ∈ t, g a = g b) ∨ P (g b) := by
  obtain ⟨new, he, hp⟩ := h
  have hm : g b ∈ t'.rows.map g := List.mem_map_of_mem hb
  rw [he] at hm
  exact (List.mem_append.mp hm).imp List.mem_map.mp (hp _)

theorem exists_right (h : Extends g P t t') (ha : a ∈ t) : ∃ b ∈ t', g b = g a := by
  obtain ⟨new, he, _⟩ := h
  have hm : g a ∈ t'.rows.map g := he ▸ List.mem_append_left _ (List.mem_map_of_mem ha)
  exact List.mem_map.mp hm

theorem sum_eq {M : Type} [AddCommMonoid M] {w : α → M} (h : Extends w (· = 0) t t') :
    (t'.rows.map w).sum = (t.rows.map w).sum := by
  obtain ⟨new, he, hp⟩ := h
  rw [he, List.sum_append, List.sum_eq_zero hp, add_zero]

-- What is read off the columns `g` does not change if there is nothing to read off the new rows.
theorem filterMap_eq {γ : Type} {d : β → Option γ} (h : Extends g P t t') (hn : ∀ b, P b → d b = none) :
    t'.rows.filterMap (d <| g ·) = t.rows.filterMap (d <| g ·) := by
  obtain ⟨new, he, hp⟩ := h
  have hx : new.filterMap d = [] := List.filterMap_eq_nil_iff.mpr fun b hb => hn b (hp b hb)
  have hm := congrArg (List.filterMap d) he
  simpa [List.filterMap_map, hx, Function.comp_def] using hm

end Extends

-- An update that changes nothing, recognized by its rows as in `Same.of_update`.
theorem eq_of_update {t' : Table α} (ht : t'.rows = t.rows.map fun a => if p a then f a else a)
    (h : ∀ a ∈ t, p a → f a = a) : t' = t := by
  apply Table.ext
  rw [ht]
  conv => rhs; rw [← List.map_id t.rows]
  refine List.map_congr_left fun a ha => ?_
  split
  case isTrue hp => exact h a ha hp
  case isFalse => rfl

theorem update_eq_self (h : ∀ a ∈ t, p a → f a = a) : t.update p f hf = t :=
  eq_of_update rfl h

theorem eq_iff_of_update {t' : Table α} (ht : t'.rows = t.rows.map fun a => if p a then f a else a) :
    t' = t ↔ ∀ a ∈ t, p a → f a = a := by
  constructor
  case mp =>
    intro h a ha hp
    have hr : t.rows.map (fun a => if p a then f a else a) = t.rows.map fun a => a :=
      ht.symm.trans <| (congrArg rows h).trans t.rows.map_id'.symm
    have hx := List.map_inj_left.mp hr a ha
    rwa [if_pos hp] at hx
  case mpr => exact eq_of_update ht

-- An update behind a check that some row matches.
@[simp]
theorem ite_any_update : (if t.rows.any p then t.update p f hf else t) = t.update p f hf := by
  split
  case isTrue => rfl
  case isFalse h =>
    rw [Bool.not_eq_true, List.any_eq_false] at h
    exact (update_eq_self fun a ha hp => absurd hp <| h a ha).symm

theorem update_congr {g : α → α} {hg : ∀ a, key (g a) = key a}
    (h : ∀ a ∈ t, (if p a then f a else a) = if q a then g a else a) :
    t.update p f hf = t.update q g hg :=
  Table.ext <| List.map_congr_left h

-- Rows that `q` selects and the update does not touch stay the selected ones. The update is recognized
-- by its rows, as in `Same.of_update`.
theorem select_of_update {t' : Table α} (ht : t'.rows = t.rows.map fun a => if p a then f a else a)
    (h : ∀ a ∈ t, p a → q a = false ∧ q (f a) = false) : t'.select q = t.select q := by
  simp only [← mem_rows] at h
  simp only [select, ht]
  clear ht
  generalize t.rows = rows at h ⊢
  induction rows
  case nil => rfl
  case cons a rows hi =>
    have ha := h a <| List.mem_cons_self
    have ht := hi fun b hb => h b <| List.mem_cons_of_mem _ hb
    by_cases hp : p a
    case pos => simp [hp, ha hp, ht]
    case neg => simp [hp, List.filter_cons, ht]

-- An update after which its rows are not selected any more.
theorem select_of_removal {t' : Table α} (ht : t'.rows = t.rows.map fun a => if p a then f a else a)
    (h : ∀ a, q (f a) = false) : t'.select q = (t.select q).filter (!p ·) := by
  simp only [select, ht]
  induction t.rows
  case nil => rfl
  case cons a rows hi => cases hp : p a <;> cases hq : q a <;> simp [hp, hq, h, hi]

end Update

section Sum

variable {M : Type} [AddCommMonoid M] {w d e : α → M} {p : α → Bool} {f : α → α} {t' : Table α}

-- An update changes a sum over the rows by what it changes in the rows it selects.
theorem sum_update (ht : t'.rows = t.rows.map fun a => if p a then f a else a)
    (h : ∀ a ∈ t, p a → w (f a) + d a = w a + e a) :
    (t'.rows.map w).sum + ((t.select p).map d).sum = (t.rows.map w).sum + ((t.select p).map e).sum := by
  simp only [← mem_rows] at h
  simp only [select, ht]
  clear ht
  generalize t.rows = rows at h ⊢
  induction rows
  case nil => rfl
  case cons a rows hi =>
    have hi := hi fun b hb => h b <| List.mem_cons_of_mem _ hb
    by_cases hp : p a
    case neg =>
      simp only [hp, List.map_cons, List.sum_cons, List.filter_cons, Bool.false_eq_true, if_false]
      rw [add_assoc, hi, add_assoc]
    case pos =>
      have ha := h a List.mem_cons_self hp
      simp only [hp, List.map_cons, List.sum_cons, List.filter_cons, if_true]
      rw [add_add_add_comm, ha, hi, add_add_add_comm]

-- The case in which the update only adds.
theorem sum_update_add (ht : t'.rows = t.rows.map fun a => if p a then f a else a)
    (h : ∀ a ∈ t, p a → w (f a) = w a + e a) :
    (t'.rows.map w).sum = (t.rows.map w).sum + ((t.select p).map e).sum := by
  have hs : (t'.rows.map w).sum + ((t.select p).map fun _ => 0).sum = _ :=
    sum_update (e := e) ht fun a ha hp => by rw [h a ha hp, add_zero]
  simpa using hs

end Sum

-- `ORDER BY` is a stable sort, which commutes with a further selection.
section Order

variable {r : α → α → Prop} [DecidableRel r] {p : α → Bool} {l : List α}

theorem filter_orderedInsert [IsTrans α r] (hs : l.Pairwise r) :
    (l.orderedInsert r a).filter p = if p a then (l.filter p).orderedInsert r a else l.filter p := by
  induction l
  case nil => cases hp : p a <;> simp [hp]
  case cons b l hi =>
    have ⟨hb, hs⟩ := List.pairwise_cons.mp hs
    by_cases hr : r a b
    case neg =>
      rw [List.orderedInsert_of_not_le r l hr, List.filter_cons, List.filter_cons, hi hs]
      cases p b <;> cases p a <;> simp [hr]
    case pos =>
      rw [List.orderedInsert_cons_of_le r l hr]
      -- All later entries come after `a`, so that it stays in front whatever is selected.
      have hf : ∀ c ∈ (b :: l).filter p, r a c := by
        intro c hc
        obtain rfl | hc := List.mem_cons.mp (List.mem_of_mem_filter hc)
        case inl => exact hr
        case inr => exact IsTrans.trans _ _ _ hr (hb c hc)
      rw [List.filter_cons]
      cases hl : (b :: l).filter p
      case nil => simp
      case cons c l' => simp [hf c (hl ▸ List.mem_cons_self)]

theorem filter_insertionSort [IsTrans α r] [Std.Total r] :
    (l.insertionSort r).filter p = (l.filter p).insertionSort r := by
  induction l
  case nil => rfl
  case cons a l hi =>
    rw [List.insertionSort_cons, filter_orderedInsert (l.pairwise_insertionSort r), hi]
    cases hp : p a <;> simp [hp]

end Order

variable [DecidableEq κ]

-- The row with primary key `k`.
def get? (t : Table α) (k : κ) : Option α :=
  t.rows.find? (key · = k)

@[simp]
theorem get?_empty : (∅ : Table α).get? k = none :=
  rfl

theorem get?_eq_some : t.get? k = some a ↔ a ∈ t ∧ key a = k where
  mp h := ⟨List.mem_of_find?_eq_some h, by simpa using List.find?_some h⟩
  mpr := by
    intro ⟨ha, hk⟩
    cases h : t.get? k
    case none =>
      have hn := List.find?_eq_none.mp h a ha
      simp [hk] at hn
    case some b =>
      have hb : b ∈ t := List.mem_of_find?_eq_some h
      have hbk : key b = k := by simpa using List.find?_some h
      rw [key_injOn hb ha (hbk.trans hk.symm)]

theorem get?_eq_none : t.get? k = none ↔ ∀ a ∈ t, key a ≠ k := by
  simp [get?, ← mem_rows]

theorem mem_of_get? (h : t.get? k = some a) : a ∈ t :=
  get?_eq_some.mp h |>.left

theorem key_of_get? (h : t.get? k = some a) : key a = k :=
  get?_eq_some.mp h |>.right

theorem get?_of_mem (h : a ∈ t) : t.get? (key a) = some a :=
  get?_eq_some.mpr ⟨h, rfl⟩

@[simp]
theorem get?_update {p : α → Bool} {f : α → α} {hf : ∀ a, key (f a) = key a} :
    (t.update p f hf).get? k = (t.get? k).map fun a => if p a then f a else a := by
  simp only [get?, update, List.find?_map]
  congr 2
  funext a
  simp only [Function.comp_apply]
  split <;> simp [hf]

-- The row with key `k`, and the others around it.
theorem split_key (h : t.get? k = some a) :
    ∃ l₁ l₂, t.rows = l₁ ++ a :: l₂ ∧ (∀ b ∈ l₁, key b ≠ k) ∧ ∀ b ∈ l₂, key b ≠ k := by
  have ⟨hm, hk⟩ := get?_eq_some.mp h
  obtain ⟨l₁, l₂, hl⟩ := List.append_of_mem (mem_rows.mpr hm)
  have nd := t.nodup
  rw [hl, List.map_append, List.map_cons, List.nodup_middle, List.nodup_cons, List.mem_append, hk] at nd
  have hn := not_or.mp nd.left
  exact ⟨l₁, l₂, hl, fun b hb he => hn.left <| List.mem_map.mpr ⟨b, hb, he⟩,
    fun b hb he => hn.right <| List.mem_map.mpr ⟨b, hb, he⟩⟩

theorem select_key (h : t.get? k = some a) : t.select (key · = k) = [a] := by
  have ⟨l₁, l₂, hl, h₁, h₂⟩ := split_key h
  have h₁ : l₁.filter (key · = k) = [] := by simpa using h₁
  have h₂ : l₂.filter (key · = k) = [] := by simpa using h₂
  simp [select, hl, key_of_get? h, h₁, h₂]

theorem select_eq_toList : t.select (key · = k) = (t.get? k).toList := by
  cases h : t.get? k
  case none => simpa [select, mem_rows] using get?_eq_none.mp h
  case some a => exact select_key h

-- An update of one row that makes it visible to `g` adds one entry to what is read off the table.
theorem filterMap_update_perm {γ : Type} {g : α → Option γ} {c : γ} {f : α → α} {t' : Table α}
    (ht : t'.rows = t.rows.map fun b => if key b = k then f b else b) (ha : t.get? k = some a)
    (hn : g a = none) (hs : g (f a) = some c) :
    (t'.rows.filterMap g).Perm (c :: t.rows.filterMap g) := by
  have ⟨l₁, l₂, hl, h₁, h₂⟩ := split_key ha
  have h₁ : l₁.map (fun b => if key b = k then f b else b) = l₁ := Keyed.modify_eq_self h₁
  have h₂ : l₂.map (fun b => if key b = k then f b else b) = l₂ := Keyed.modify_eq_self h₂
  rw [ht, hl, List.map_append, List.map_cons, h₁, h₂, if_pos (key_of_get? ha)]
  simp only [List.filterMap_append, List.filterMap_cons, hs, hn]
  exact List.perm_middle

-- Updating rows one key after another is one update of all of them.
theorem foldl_update {f : κ → α → α} (hf : ∀ k a, key (f k a) = key a) {ks : List κ} (nd : ks.Nodup) :
    ks.foldl (fun t k => t.update (key · = k) (f k) (hf k)) t =
      t.update (key · ∈ ks) (fun a => f (key a) a) (fun a => hf (key a) a) := by
  induction ks generalizing t
  case nil =>
    refine (update_eq_self ?_).symm
    simp
  case cons k ks hi =>
    have ⟨hk, nd⟩ := List.nodup_cons.mp nd
    rw [List.foldl_cons, hi nd]
    apply Table.ext
    simp only [update, List.map_map]
    refine List.map_congr_left fun a _ => ?_
    by_cases ha : key a = k
    case pos => simp [ha, hf, hk]
    case neg => simp [ha]

-- `INSERT`; `none` is a violation of the primary key.
def insert (t : Table α) (a : α) : Option (Table α) :=
  if h : key a ∈ t.rows.map key then
    none
  else
    some {
      rows  := t.rows ++ [a]
      nodup := by simpa [List.nodup_append, t.nodup] using h
    }

section Insert

theorem insert_eq_some_iff {t' : Table α} :
    t.insert a = some t' ↔ t.get? (key a) = none ∧ t'.rows = t.rows ++ [a] := by
  rw [get?_eq_none]
  unfold insert
  split
  case isTrue h =>
    simp only [reduceCtorEq, false_iff, not_and]
    intro hn
    have ⟨b, hb, hk⟩ := List.mem_map.mp h
    exact absurd hk <| hn b hb
  case isFalse h =>
    have hn : ∀ b ∈ t, key b ≠ key a := fun b hb hk => h <| List.mem_map.mpr ⟨b, hb, hk⟩
    rw [Option.some.injEq, Table.ext_iff, eq_comm]
    exact ⟨(⟨hn, ·⟩), And.right⟩

variable {t' : Table α} (h : t.insert a = some t')
include h

theorem rows_of_insert : t'.rows = t.rows ++ [a] :=
  insert_eq_some_iff.mp h |>.right

theorem get?_key_of_insert : t.get? (key a) = none :=
  insert_eq_some_iff.mp h |>.left

theorem mem_of_insert : b ∈ t' ↔ b ∈ t ∨ b = a := by
  simp [← mem_rows, rows_of_insert h]

theorem select_of_insert {p : α → Bool} :
    t'.select p = t.select p ++ if p a then [a] else [] := by
  simp [select, rows_of_insert h, List.filter_cons]

theorem Extends.of_insert {β : Type} {g : α → β} {P : β → Prop} (hp : P (g a)) : Extends g P t t' :=
  ⟨[g a], by simp [rows_of_insert h], by simpa using hp⟩

theorem get?_of_insert : t'.get? k = if key a = k then some a else t.get? k := by
  split
  case isTrue hk => exact get?_eq_some.mpr ⟨mem_of_insert h |>.mpr <| .inr rfl, hk⟩
  case isFalse hk => simp [get?, rows_of_insert h, hk]

end Insert

theorem insert_isSome (h : t.get? (key a) = none) : ∃ t', t.insert a = some t' := by
  have hn : key a ∉ t.rows.map key := by
    simpa [get?_eq_none, mem_rows] using h
  simp [insert, hn]

-- `INSERT … ON CONFLICT(key) DO UPDATE SET f`.
def upsert (t : Table α) (a : α) (f : α → α)
    (hf : ∀ a, key (f a) = key a := by exact Keyed.keeps fun _ => rfl) : Table α :=
  (t.insert a).getD <| t.update (key · = key a) f hf

-- `INSERT OR IGNORE`.
def insertOrIgnore (t : Table α) (a : α) : Table α :=
  (t.insert a).getD t

theorem insert_eq_none (h : t.get? (key a) = some b) : t.insert a = none := by
  cases hi : t.insert a
  case none => rfl
  case some => simp [get?_key_of_insert hi] at h

section Upsert

variable {f : α → α} {hf : ∀ a, key (f a) = key a}

-- An upsert is an insert or an update.
theorem upsert_cases (t : Table α) (a : α) (f : α → α) (hf : ∀ a, key (f a) = key a) :
    t.insert a = some (t.upsert a f hf) ∨ t.upsert a f hf = t.update (key · = key a) f hf := by
  simp only [upsert]
  cases t.insert a
  case none => exact .inr rfl
  case some => exact .inl rfl

theorem get?_upsert :
    (t.upsert a f hf).get? k = if key a = k then some <| (t.get? k).elim a f else t.get? k := by
  simp only [upsert]
  cases hg : t.get? (key a)
  case none =>
    have ⟨t', hi⟩ := insert_isSome hg
    rw [hi, Option.getD_some, get?_of_insert hi]
    split
    case isTrue hk => simp [← hk, hg]
    case isFalse => rfl
  case some b =>
    rw [insert_eq_none hg, Option.getD_none, get?_update]
    split
    case isTrue hk => simp [← hk, hg, key_of_get? hg]
    case isFalse hk =>
      cases hb : t.get? k
      case none => rfl
      case some c => simp [key_of_get? hb, Ne.symm hk]

theorem mem_of_upsert (hb : b ∈ t.upsert a f hf) :
    b ∈ t ∧ key b ≠ key a ∨ b = a ∨ ∃ c ∈ t, key c = key a ∧ b = f c := by
  cases t.upsert_cases a f hf
  case inl hi =>
    cases (mem_of_insert hi).mp hb
    case inl hb => exact .inl ⟨hb, get?_eq_none.mp (get?_key_of_insert hi) b hb⟩
    case inr hb => exact .inr <| .inl hb
  case inr hu =>
    have ⟨c, hc, he⟩ := mem_update.mp (hu ▸ hb)
    by_cases hk : key c = key a
    case pos =>
      rw [decide_eq_true hk, if_pos rfl] at he
      exact .inr <| .inr ⟨c, hc, hk, he.symm⟩
    case neg =>
      rw [decide_eq_false hk, if_neg Bool.false_ne_true] at he
      exact .inl ⟨he ▸ hc, he ▸ hk⟩

-- An upsert that adds the new row up with the old one adds it to every sum.
theorem sum_upsert {M : Type} [AddCommMonoid M] {w : α → M}
    (h : ∀ b, key b = key a → w (f b) = w b + w a) :
    ((t.upsert a f hf).rows.map w).sum = (t.rows.map w).sum + w a := by
  cases hg : t.get? (key a)
  case none =>
    have ⟨t', hi⟩ := insert_isSome hg
    simp [upsert, hi, rows_of_insert hi]
  case some b =>
    have hs : ((t.update (key · = key a) f hf).rows.map w).sum = _ :=
      sum_update_add (e := fun _ => w a) rfl fun b _ hb => h b (of_decide_eq_true hb)
    rw [select_key hg] at hs
    simpa [upsert, insert_eq_none hg] using hs

theorem get?_insertOrIgnore :
    (t.insertOrIgnore a).get? k = if key a = k then some <| (t.get? k).getD a else t.get? k := by
  simp only [insertOrIgnore]
  cases hg : t.get? (key a)
  case none =>
    have ⟨t', hi⟩ := insert_isSome hg
    rw [hi, Option.getD_some, get?_of_insert hi]
    split
    case isTrue hk => simp [← hk, hg]
    case isFalse => rfl
  case some b =>
    rw [insert_eq_none hg, Option.getD_none]
    split
    case isTrue hk => simp [← hk, hg]
    case isFalse => rfl

end Upsert

-- `DELETE … WHERE p`.
def delete (t : Table α) (p : α → Bool) : Table α where
  rows  := t.rows.filter (!p ·)
  nodup := t.nodup.sublist <| List.filter_sublist.map _

omit [DecidableEq κ] in
theorem mem_delete : a ∈ t.delete p ↔ a ∈ t ∧ p a = false := by
  rw [← mem_rows, ← mem_rows]
  simp [delete]

end Table
