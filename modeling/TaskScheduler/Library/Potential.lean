import TaskScheduler.Library.Machine

namespace Machine

variable {σ α : Type}

-- How many actions of a sequence are of a kind.
def count (M : Machine σ α) (q : σ → α → Bool) : σ → List α → Nat
  | _, []      => 0
  | s, a :: as => (if q s a then 1 else 0) + M.count q (M.exec s a) as

variable {M : Machine σ α} {s : σ} {as : List α}

theorem count_restrict {p : σ → α → Prop} {q : σ → α → Bool} :
    (M.restrict p).count q s as = M.count q s as := by
  induction as generalizing s
  case nil => rfl
  case cons a as hi => exact congrArg _ hi

-- The rule of potentials: what no action raises, and every action of the kind lowers, bounds how many
-- of them there are.
theorem Valid.count_add_le {I : σ → Prop} {q : σ → α → Bool} {μ : σ → Nat}
    (step : ∀ s a, I s → M.Enabled s a → I (M.exec s a))
    (h : ∀ s a, I s → M.Enabled s a → (if q s a then 1 else 0) + μ (M.exec s a) ≤ μ s)
    (v : M.Valid s as) (hi : I s) : M.count q s as + μ (M.run s as) ≤ μ s := by
  induction v
  case nil => simp [count]
  case cons s a as ha _ ih =>
    have h₁ := ih <| step s a hi ha
    have h₂ := h s a hi ha
    rw [count, run_cons]
    omega

end Machine
