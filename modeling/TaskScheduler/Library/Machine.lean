import Mathlib

-- A machine whose actions are functions on its states. `Enabled` tells which actions its
-- environment may take in a state.
structure Machine (σ α : Type) where
  exec    : σ → α → σ
  Enabled : σ → α → Prop

namespace Machine

variable {σ α : Type}

def run (M : Machine σ α) (s : σ) (as : List α) : σ :=
  as.foldl M.exec s

-- Each action of a sequence is enabled in the state in which it is taken.
inductive Valid (M : Machine σ α) : σ → List α → Prop
  | nil  : Valid M s []
  | cons : M.Enabled s a → Valid M (M.exec s a) as → Valid M s (a :: as)

def Reachable (M : Machine σ α) (init s : σ) : Prop :=
  ∃ as, M.Valid init as ∧ M.run init as = s

-- The machine in an environment that keeps to a further condition.
def restrict (M : Machine σ α) (p : σ → α → Prop) : Machine σ α where
  exec        := M.exec
  Enabled s a := M.Enabled s a ∧ p s a

-- Every state that a sequence of actions leads through satisfies `p`.
def Along (M : Machine σ α) (p : σ → Prop) : σ → List α → Prop
  | s, []      => p s
  | s, a :: as => p s ∧ M.Along p (M.exec s a) as

variable {M N : Machine σ α} {s s₁ s₂ : σ} {a : α} {as bs : List α} {p : σ → α → Prop}

@[simp]
theorem run_nil : M.run s [] = s :=
  rfl

@[simp]
theorem run_cons : M.run s (a :: as) = M.run (M.exec s a) as :=
  rfl

theorem run_append : M.run s (as ++ bs) = M.run (M.run s as) bs :=
  List.foldl_append

namespace Valid

theorem cons_iff : M.Valid s (a :: as) ↔ M.Enabled s a ∧ M.Valid (M.exec s a) as where
  mp  := fun (.cons h v) => ⟨h, v⟩
  mpr := fun ⟨h, v⟩ => .cons h v

theorem singleton (h : M.Enabled s a) : M.Valid s [a] :=
  .cons h .nil

theorem of_forall (h : ∀ s a, M.Enabled s a) : M.Valid s as := by
  induction as generalizing s
  case nil => exact .nil
  case cons a as hi => exact .cons (h s a) hi

theorem append_iff : M.Valid s (as ++ bs) ↔ M.Valid s as ∧ M.Valid (M.run s as) bs := by
  induction as generalizing s
  case nil => simp [Valid.nil]
  case cons a as hi => simp [cons_iff, hi, and_assoc]

-- The rule of invariants: what every enabled action preserves holds along every sequence.
theorem invariant {I : σ → Prop} (step : ∀ s a, I s → M.Enabled s a → I (M.exec s a))
    (v : M.Valid s as) (h : I s) : I (M.run s as) := by
  induction v
  case nil => exact h
  case cons he _ hi => exact hi <| step _ _ h he

-- A machine that offers its environment less has fewer sequences.
theorem mono (v : M.Valid s as) (he : M.exec = N.exec) (h : ∀ s a, M.Enabled s a → N.Enabled s a) :
    N.Valid s as := by
  induction v
  case nil => exact .nil
  case cons ha _ hi => exact .cons (h _ _ ha) (he ▸ hi)

theorem of_restrict (v : (M.restrict p).Valid s as) : M.Valid s as :=
  v.mono rfl fun _ _ h => h.left

theorem restrict_cons_iff : (M.restrict p).Valid s (a :: as) ↔
    (M.Enabled s a ∧ p s a) ∧ (M.restrict p).Valid (M.exec s a) as :=
  cons_iff

-- If each action keeps `q` exactly when it meets `p`, then `q` holds along a sequence exactly when all
-- its actions meet `p`. The invariant `I` may be used to show the former.
theorem along_iff {I q : σ → Prop} (step : ∀ s a, I s → M.Enabled s a → I (M.exec s a))
    (h : ∀ s a, I s → M.Enabled s a → q s → (q (M.exec s a) ↔ p s a)) (v : M.Valid s as) (hi : I s)
    (hq : q s) : M.Along q s as ↔ (M.restrict p).Valid s as := by
  induction v
  case nil => exact ⟨fun _ => .nil, fun _ => hq⟩
  case cons s a as ha _ ih =>
    rw [Along, restrict_cons_iff]
    have hs := h s a hi ha hq
    constructor
    case mp =>
      intro ⟨_, hl⟩
      have hx : q (M.exec s a) := by
        cases as
        case nil => exact hl
        case cons => exact hl.left
      exact ⟨⟨ha, hs.mp hx⟩, (ih (step s a hi ha) hx).mp hl⟩
    case mpr =>
      intro ⟨⟨_, hp⟩, hv⟩
      exact ⟨hq, (ih (step s a hi ha) (hs.mpr hp)).mpr hv⟩

end Valid

instance decidableValid [∀ s a, Decidable (M.Enabled s a)] : ∀ s as, Decidable (M.Valid s as)
  | _, []      => .isTrue .nil
  | s, a :: as =>
    haveI := decidableValid (M.exec s a) as
    decidable_of_iff _ Valid.cons_iff.symm

instance [∀ s a, Decidable (M.Enabled s a)] [∀ s a, Decidable (p s a)] (s : σ) (a : α) :
    Decidable ((M.restrict p).Enabled s a) :=
  inferInstanceAs (Decidable (M.Enabled s a ∧ p s a))

namespace Reachable

theorem refl : M.Reachable s s :=
  ⟨[], .nil, rfl⟩

theorem run (h : M.Reachable s₁ s) (v : M.Valid s as) : M.Reachable s₁ (M.run s as) := by
  obtain ⟨bs, hv, rfl⟩ := h
  exact ⟨bs ++ as, Valid.append_iff.mpr ⟨hv, v⟩, run_append⟩

theorem exec (h : M.Reachable s₁ s) (ha : M.Enabled s a) : M.Reachable s₁ (M.exec s a) :=
  h.run <| .singleton ha

theorem of_restrict (h : (M.restrict p).Reachable s₁ s₂) : M.Reachable s₁ s₂ := by
  obtain ⟨as, v, rfl⟩ := h
  exact ⟨as, v.of_restrict, rfl⟩

theorem invariant {I : σ → Prop} (step : ∀ s a, I s → M.Enabled s a → I (M.exec s a))
    (h : M.Reachable s₁ s₂) (h₁ : I s₁) : I s₂ := by
  obtain ⟨as, v, rfl⟩ := h
  exact v.invariant step h₁

end Reachable

end Machine
