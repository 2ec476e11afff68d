import TaskScheduler.Library.Table
import TaskScheduler.Library.Machine
import TaskScheduler.Core.Domain

namespace Scheduler

-- What became of the message that carries an assignment to its agent.
inductive Delivery
  | pending
  | sent
  | failed
  deriving DecidableEq, Repr

-- What the life of a run has to know about one of its attempts.
structure Slot where
  id       : Uuid
  number   : Nat
  state    : AttemptState
  accepted : Bool
  delivery : Delivery
  deriving DecidableEq, Repr

instance : Keyed Slot Uuid := ⟨Slot.id⟩

-- The life of one run: its state, its retry budget and its attempts. The last two fields remember
-- which attempts were accepted and which were reported by an agent since the last retry.
@[ext]
structure Life where
  state    : RunState
  budget   : Nat
  count    : Nat
  offset   : Nat
  slots    : List Slot
  accepted : List Uuid
  executed : List Uuid
  deriving DecidableEq, Repr

namespace Life

-- What can happen to a run. `ok` tells whether a result reports success.
inductive Event
  | offer         (id : Uuid)
  | deliver       (id : Uuid) (delivery : Delivery)
  | release       (id : Uuid)
  | reject        (id : Uuid)
  | accept        (id : Uuid)
  | expire        (id : Uuid)
  | finish        (id : Uuid) (ok : Bool)
  | finishExpired (id : Uuid) (ok : Bool)
  | cancel
  | retry
  | poison
  deriving DecidableEq, Repr

def initial (budget : Nat) : Life where
  state    := .queued
  budget
  count    := 0
  offset   := 0
  slots    := []
  accepted := []
  executed := []

def activeCount (l : Life) : Nat :=
  l.slots.countP (·.state.isActive)

def acceptedCount (l : Life) : Nat :=
  l.slots.countP (·.accepted)

def nextNumber (l : Life) : Nat :=
  (l.slots.map (·.number)).foldl max 0 + 1

def modify (l : Life) (id : Uuid) (f : Slot → Slot) : Life :=
  { l with slots := Keyed.modify l.slots id f }

def setState (l : Life) (id : Uuid) (state : AttemptState) : Life :=
  l.modify id ({ · with state })

-- A run whose offer came to nothing waits again.
def requeue (l : Life) : Life :=
  if l.state = .running then { l with state := .queued } else l

def next (l : Life) (ok : Bool) : RunState :=
  if ok then .succeeded else if l.count < l.budget then .queued else .failed

-- A result for the attempt `id`; it decides the run unless the run was cancelled.
def conclude (l : Life) (id : Uuid) (ok : Bool) : Life :=
  if l.state = .cancelled then
    l.setState id .lateResult
  else
    { l.setState id .finished with state := l.next ok }

def newSlot (l : Life) (id : Uuid) : Slot where
  id
  number   := l.nextNumber
  state    := .offered
  accepted := false
  delivery := .pending

def exec (l : Life) : Event → Life
  | .offer id            => { l with state := .running, slots := l.slots ++ [l.newSlot id] }
  | .deliver id delivery => l.modify id ({ · with delivery })
  | .release id          => (l.setState id .offerFailed).requeue
  | .reject id           => (l.setState id .finished).requeue
  | .accept id           =>
    let l' := l.modify id ({ · with state := .accepted, accepted := true })
    { l' with count := l'.acceptedCount - l.offset, accepted := l.accepted.insert id }
  | .expire id           => l.setState id .expiring
  | .finish id ok        => { l.conclude id ok with executed := l.executed.insert id }
  | .finishExpired id ok => l.conclude id ok
  | .cancel              => { l with state := .cancelled }
  | .retry               => { l with
      state    := .queued
      count    := 0
      offset   := l.acceptedCount
      accepted := []
      executed := []
    }
  | .poison              => { l with state := .failed }

-- The slot `id` exists and satisfies `p`.
def Has (l : Life) (id : Uuid) (p : Slot → Prop) : Prop :=
  ∃ a ∈ l.slots, a.id = id ∧ p a

def Enabled (l : Life) : Event → Prop
  | .offer id           => l.state = .queued ∧ ∀ a ∈ l.slots, a.id ≠ id
  | .deliver id _       => l.Has id (·.delivery = .pending)
  | .release id         => l.Has id fun a => a.state = .offered ∧ a.delivery = .failed
  | .reject id          => l.Has id (·.state = .offered)
  | .accept id          => l.Has id fun a => a.state = .offered ∨ a.state = .accepted
  | .expire id          => l.Has id fun a => a.state = .offered ∨ a.state = .accepted
  | .finish id _        => l.Has id fun a => a.delivery = .sent ∧
      a.state ≠ .expiring ∧ a.state ≠ .finished ∧ a.state ≠ .lateResult
  | .finishExpired id _ => l.Has id (·.state = .expiring)
  | .cancel             => l.state = .queued ∨ l.state = .running
  | .retry              => l.state = .failed
  | .poison             => l.state = .queued

-- The final state that a result gives to its attempt.
def conclusion (l : Life) : AttemptState :=
  if l.state = .cancelled then .lateResult else .finished

-- What an event can do to one slot.
inductive Moves (l : Life) : Event → Slot → Slot → Prop
  | same          : Moves l e a a
  | deliver       : a.delivery = .pending → Moves l (.deliver a.id d) a { a with delivery := d }
  | release       : a.state = .offered → a.delivery = .failed →
    Moves l (.release a.id) a { a with state := .offerFailed }
  | reject        : a.state = .offered → Moves l (.reject a.id) a { a with state := .finished }
  | accept        : a.state = .offered ∨ a.state = .accepted →
    Moves l (.accept a.id) a { a with state := .accepted, accepted := true }
  | expire        : a.state = .offered ∨ a.state = .accepted →
    Moves l (.expire a.id) a { a with state := .expiring }
  | finish        : a.delivery = .sent →
    a.state ≠ .expiring ∧ a.state ≠ .finished ∧ a.state ≠ .lateResult →
    Moves l (.finish a.id ok) a { a with state := l.conclusion }
  | finishExpired : a.state = .expiring →
    Moves l (.finishExpired a.id ok) a { a with state := l.conclusion }

end Life

end Scheduler
