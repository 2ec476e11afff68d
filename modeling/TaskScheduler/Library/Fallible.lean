import Mathlib

-- When computations that may fail succeed.
namespace Fallible

variable {α β γ ε : Type}

theorem bind_eq_ok {x : Except ε α} {f : α → Except ε β} {b : β} :
    x >>= f = .ok b ↔ ∃ a, x = .ok a ∧ f a = .ok b := by
  cases x <;> simp [bind, Except.bind]

theorem map_eq_ok {x : Except ε α} {f : α → β} {b : β} :
    f <$> x = .ok b ↔ ∃ a, x = .ok a ∧ f a = b := by
  cases x <;> simp [Functor.map, Except.map]

theorem ite_error_eq_ok {c : Prop} [Decidable c] {e : ε} {x : Except ε α} {a : α} :
    (if c then .error e else x) = .ok a ↔ ¬c ∧ x = .ok a := by
  split <;> simp [*]

theorem forM_eq_ok {l : List α} {f : α → Except ε Unit} :
    forM l f = .ok () ↔ ∀ a ∈ l, f a = .ok () := by
  induction l
  case nil => simp [pure, Except.pure]
  case cons a l hi =>
    rw [List.forM_cons, bind_eq_ok, List.forall_mem_cons, hi]
    exact ⟨fun ⟨_, h⟩ => h, fun h => ⟨_, h⟩⟩

theorem mapM_eq_ok {l : List α} {f : α → Except ε β} {g : α → Except ε γ}
    {r : β → γ → Prop} {bs : List β} {cs : List γ}
    (h : ∀ a ∈ l, ∀ b c, f a = .ok b → g a = .ok c → r b c) (hf : l.mapM f = .ok bs)
    (hg : l.mapM g = .ok cs) : List.Forall₂ r bs cs := by
  induction l generalizing bs cs
  case nil =>
    cases hf
    cases hg
    exact .nil
  case cons a l hi =>
    simp only [List.mapM_cons, bind_eq_ok, pure, Except.pure, Except.ok.injEq] at hf hg
    have ⟨b, hb, bs', hbs, hf⟩ := hf
    have ⟨c, hc, cs', hcs, hg⟩ := hg
    rw [← hf, ← hg]
    exact .cons (h a List.mem_cons_self b c hb hc) <|
      hi (fun a ha => h a (List.mem_cons_of_mem _ ha)) hbs hcs

theorem length_of_mapM {l : List α} {f : α → Except ε β} {bs : List β}
    (h : l.mapM f = .ok bs) : bs.length = l.length := by
  induction l generalizing bs
  case nil =>
    cases h
    rfl
  case cons a l hi =>
    simp only [List.mapM_cons, bind_eq_ok, pure, Except.pure, Except.ok.injEq] at h
    have ⟨_, _, bs, hbs, h⟩ := h
    simp [← h, hi hbs]

theorem exists_mapM {l : List α} {f : α → Except ε β} {r : β → Prop} :
    (∃ bs, l.mapM f = .ok bs ∧ ∀ b ∈ bs, r b) ↔ ∀ a ∈ l, ∃ b, f a = .ok b ∧ r b := by
  induction l
  case nil => simp [pure, Except.pure]
  case cons a l hi =>
    rw [List.forall_mem_cons, ← hi]
    simp only [List.mapM_cons, bind_eq_ok, pure, Except.pure, Except.ok.injEq]
    constructor
    case mp =>
      rintro ⟨_, ⟨b, hb, bs, hbs, rfl⟩, hr⟩
      have ⟨hr, hrs⟩ := List.forall_mem_cons.mp hr
      exact ⟨⟨b, hb, hr⟩, bs, hbs, hrs⟩
    case mpr =>
      rintro ⟨⟨b, hb, hr⟩, bs, hbs, hrs⟩
      exact ⟨b :: bs, ⟨b, hb, bs, hbs, rfl⟩, List.forall_mem_cons.mpr ⟨hr, hrs⟩⟩

theorem option_mapM_eq_ok {o : Option α} {f g : α → Except ε β} {b c : Option β}
    (h : ∀ a ∈ o.toList, ∀ b c, f a = .ok b → g a = .ok c → b = c) (hf : o.mapM f = .ok b)
    (hg : o.mapM g = .ok c) : b = c := by
  cases o
  case none =>
    cases hf
    cases hg
    rfl
  case some a =>
    have ⟨b', hb, hf⟩ := map_eq_ok.mp hf
    have ⟨c', hc, hg⟩ := map_eq_ok.mp hg
    rw [← hf, ← hg, h a List.mem_cons_self b' c' hb hc]

theorem exists_option_mapM {o : Option α} {f : α → Except ε β} :
    (∃ b, o.mapM f = .ok b) ↔ ∀ a ∈ o, ∃ b, f a = .ok b := by
  cases o
  case none => simp [pure, Except.pure]
  case some a =>
    simp only [Option.mapM_some, map_eq_ok]
    simp

section Forall

variable {R : α → β → Prop} {l : List α} {l' : List β} {a : α}

theorem mapM_eq_ok_iff {f : α → Except ε β} :
    l.mapM f = .ok l' ↔ List.Forall₂ (fun a b => f a = .ok b) l l' := by
  induction l generalizing l'
  case nil => simp [pure, Except.pure, eq_comm]
  case cons a l hi =>
    simp only [List.mapM_cons, bind_eq_ok, pure, Except.pure, Except.ok.injEq, hi,
      List.forall₂_cons_left_iff]
    constructor
    case mp =>
      rintro ⟨b, hb, bs, hbs, rfl⟩
      exact ⟨b, bs, hb, hbs, rfl⟩
    case mpr =>
      rintro ⟨b, bs, hb, hbs, rfl⟩
      exact ⟨b, hb, bs, hbs, rfl⟩

theorem exists_of_forall₂ (h : List.Forall₂ R l l') (ha : a ∈ l) : ∃ b ∈ l', R a b := by
  induction h
  case nil => contradiction
  case cons hr _ hi =>
    cases ha
    case head => exact ⟨_, List.mem_cons_self, hr⟩
    case tail ha =>
      have ⟨b, hb, hr⟩ := hi ha
      exact ⟨b, List.mem_cons_of_mem _ hb, hr⟩

theorem exists_forall₂ (h : ∀ a ∈ l, ∃ b, R a b) : ∃ l', List.Forall₂ R l l' := by
  induction l
  case nil => exact ⟨[], .nil⟩
  case cons a l hi =>
    have ⟨⟨b, hb⟩, h⟩ := List.forall_mem_cons.mp h
    have ⟨l', hl⟩ := hi h
    exact ⟨b :: l', .cons hb hl⟩

end Forall

end Fallible
