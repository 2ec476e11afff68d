import TaskScheduler.Lifecycle.Invariant

namespace Scheduler.Life

variable {l : Life} {e : Event} {id : Uuid}

-- An acceptance comes from an agent that the assignment has reached.
def Received (l : Life) (e : Event) : Prop :=
  ∀ a ∈ l.slots, e = .accept a.id → a.delivery = .sent

-- What an agent accepted has reached it.
def Acknowledged (l : Life) : Prop :=
  ∀ a ∈ l.slots, a.state = .accepted → a.delivery = .sent

theorem Acknowledged.initial {n} : Acknowledged (.initial n) :=
  nofun

theorem Acknowledged.exec (k : Acknowledged l) (s : Sound l) (h : l.Enabled e) (hr : l.Received e) :
    Acknowledged (l.exec e) := by
  intro b hb hs
  obtain ⟨i, -, rfl⟩ | ⟨a, ha, hm⟩ := s.mem_exec h hb
  case inl => contradiction
  case inr =>
    cases hm
    case same => exact k _ ha hs
    case accept => exact hr a ha rfl
    case deliver hp =>
      have hd := k _ ha hs
      rw [hp] at hd
      contradiction
    case finish | finishExpired => exact absurd hs conclusion_not_leased.right
    all_goals contradiction

-- A cancelled run none of whose attempts can be accepted any more.
structure Stopped (l : Life) : Prop where
  state : l.state = .cancelled
  slots : ∀ a ∈ l.slots, a.state ≠ .accepted ∧ (a.state = .offered → a.delivery = .failed)

theorem Stopped.exec (k : Stopped l) (s : Sound l) (h : l.Enabled e) (hr : l.Received e) :
    Stopped (l.exec e) := by
  constructor
  case state =>
    by_contra hs
    obtain ⟨_, hf⟩ := terminal_left_by_retry s h (by simp [k.state, RunState.isTerminal])
      (by simpa [k.state] using hs)
    simp [k.state] at hf
  case slots =>
    intro b hb
    obtain ⟨i, rfl, rfl⟩ | ⟨a, ha, hm⟩ := s.mem_exec h hb
    case inl => simp [Enabled, k.state] at h
    case inr =>
      obtain ⟨hn, ho⟩ := k.slots a ha
      cases hm
      case same => exact ⟨hn, ho⟩
      case deliver hp => exact ⟨hn, fun hs => by simp [hp] at ho; contradiction⟩
      case accept hs =>
        -- The offer that was accepted has reached its agent, but no open offer has.
        have hd := hr _ ha rfl
        simp_all
      case finish | finishExpired =>
        exact ⟨conclusion_not_leased.right, fun hs => absurd hs conclusion_not_leased.left⟩
      all_goals simp

end Scheduler.Life
