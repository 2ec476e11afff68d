import TaskScheduler.Store.Operations
import TaskScheduler.Lifecycle.Life

namespace Scheduler

-- An offer is only released when sending it failed, and an agent only reports results of assignments
-- that reached it.
def Op.needs : Op → Option (Uuid × Delivery)
  | .releaseOffer id     => some (id, .failed)
  | .finishAttempt id .. => some (id, .sent)
  | _                    => none

def Op.Allowed (delivery : Uuid → Delivery) (op : Op) : Prop :=
  ∀ x ∈ op.needs, delivery x.1 = x.2

instance {delivery : Uuid → Delivery} {op : Op} : Decidable (op.Allowed delivery) :=
  inferInstanceAs (Decidable (∀ x ∈ op.needs, delivery x.1 = x.2))

-- The coordinator's store, what became of the assignments it sent, and the history so far.
structure System where
  store    : Store
  delivery : Uuid → Delivery
  log      : List LogEntry

inductive Action
  | store   (op : Op)
  | deliver (attemptId : Uuid) (delivery : Delivery)

namespace System

def initial : System where
  store    := .empty
  delivery := fun _ => .pending
  log      := []

def exec (σ : System) : Action → System
  | .store op     => { σ with store := σ.store.exec op, log := σ.store.observe op ++ σ.log }
  | .deliver id d => { σ with delivery := Function.update σ.delivery id d }

-- Nothing is assumed about the order of operations apart from what `Op.Allowed` says. A message is
-- sent once, after its attempt was stored.
def Enabled (σ : System) : Action → Prop
  | .store op     => op.Allowed σ.delivery
  | .deliver id d => (σ.store.attempts.get? id).isSome ∧ σ.delivery id = .pending ∧ d ≠ .pending

instance {σ : System} {act : Action} : Decidable (σ.Enabled act) :=
  match act with
  | .store op     => inferInstanceAs (Decidable (op.Allowed σ.delivery))
  | .deliver id d => inferInstanceAs (Decidable
      ((σ.store.attempts.get? id).isSome ∧ σ.delivery id = .pending ∧ d ≠ .pending))

end System

def coordinator : Machine System Action where
  exec    := System.exec
  Enabled := System.Enabled

instance {σ : System} {act : Action} : Decidable (coordinator.Enabled σ act) :=
  inferInstanceAs (Decidable (σ.Enabled act))

def System.Reachable (σ : System) : Prop :=
  coordinator.Reachable .initial σ

-- The coordinator is one of the clients that a store can have.
theorem System.Reachable.store {σ : System} (h : σ.Reachable) : σ.store.Reachable := by
  refine Machine.Reachable.invariant (I := (·.store.Reachable)) (fun σ act hs ha => ?_) h .refl
  clear ha
  cases act
  case store op => exact hs.exec op
  case deliver => exact hs

end Scheduler
