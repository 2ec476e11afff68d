import TaskScheduler.Listing.Stability

namespace Scheduler

open Paging Api

-- The values of SQLite that occur here.
inductive SqlValue
  | null
  | integer (value : Int)
  | text (value : String)
  deriving DecidableEq, Repr

namespace SqlValue

def ofOption {α : Type} (f : α → SqlValue) (o : Option α) : SqlValue :=
  o.elim null f

-- What is compared with a column of texts is turned into a text.
def asText : SqlValue → SqlValue
  | integer value => text (toString value)
  | other         => other

-- Numbers are before texts. A text that is compared with a column of numbers stays one unless it
-- looks like a number, which the text of a UUID does not.
def compare : SqlValue → SqlValue → Option Ordering
  | null, _ | _, null    => none
  | integer a, integer b => some (Ord.compare a b)
  | text a, text b       => some (if a < b then .lt else if a = b then .eq else .gt)
  | integer _, text _    => some .lt
  | text _, integer _    => some .gt

def eq (a b : SqlValue) : Option Bool :=
  (compare a b).map (· = .eq)

def gt (a b : SqlValue) : Option Bool :=
  (compare a b).map (· = .gt)

def isNull (a : SqlValue) : Option Bool :=
  some (a = null)

def or : Option Bool → Option Bool → Option Bool
  | some true, _ | _, some true => some true
  | some false, some false      => some false
  | _, _                        => none

def and : Option Bool → Option Bool → Option Bool
  | some false, _ | _, some false => some false
  | some true, some true          => some true
  | _, _                          => none

end SqlValue

structure AttemptRow where
  id            : Uuid
  runId         : Uuid
  attemptNumber : Nat
  acceptedAt    : Option Instant
  finishedAt    : Option Instant
  createdAt     : Instant

inductive AttemptsError
  | notFound
  | datatypeMismatch
  | list (error : ListError)

namespace Attempts

open SqlValue

variable (cr : CursorRuntime)

-- `bind` gives the placeholders their values in order. One that is left without is NULL.
def bindAll (arguments : List SqlValue) (placeholder : Nat) : SqlValue :=
  arguments.getD (placeholder - 1) .null

-- `run_id=? AND (? IS NULL OR attempt_number>? OR (attempt_number=? AND id>?))`
def condition (p : Nat → SqlValue) (r : AttemptRow) : Option Bool :=
  let runId := text (cr.uuidText r.runId)
  let attemptNumber := integer r.attemptNumber
  let id := text (cr.uuidText r.id)
  and (eq runId (asText (p 1))) <|
    or (or (isNull (p 2)) (gt attemptNumber (p 3)))
      (and (eq attemptNumber (p 4)) (gt id (asText (p 5))))

-- `SELECT … WHERE … ORDER BY attempt_number,id LIMIT ?`. What is not an integer is no limit.
def query (p : Nat → SqlValue) (rows : List AttemptRow) : Except AttemptsError (List AttemptRow) :=
  match p 6 with
  | integer limit =>
    let found := (rows.filter (condition cr p · = some true)).insertionSort fun r r' =>
      toLex (r.attemptNumber, cr.uuidText r.id) ≤ toLex (r'.attemptNumber, cr.uuidText r'.id)
    .ok <| if limit < 0 then found else found.take limit.toNat
  | _ => .error .datatypeMismatch

def runAttemptsPage (rows : List AttemptRow) (runId : Uuid) (cursorAttemptNumber : Option Nat)
    (cursorId : Option String) (limit : Nat) : Except AttemptsError (List AttemptRow) :=
  query cr (bindAll [
      text (cr.uuidText runId),
      ofOption (integer ·) cursorAttemptNumber,
      ofOption (integer ·) cursorAttemptNumber,
      ofOption text cursorId,
      integer (max 1 (min limit 201) : Nat)
    ]) rows

def attemptViewFromRow (r : AttemptRow) : Except ListError AttemptRow := do
  return { r with
    acceptedAt := ← r.acceptedAt.mapM parseColumn
    finishedAt := ← r.finishedAt.mapM parseColumn
    createdAt  := ← parseColumn r.createdAt
  }

def decodePosition (cursor : String) : Except AttemptsError AttemptCursor :=
  (cr.decodeAttemptCursor cursor).elim
    (.error (.list (.invalidCursor "invalid pagination cursor"))) .ok

def runAttempts (runs : List Uuid) (rows : List AttemptRow) (runId : Uuid) (limit : Option Nat)
    (cursor : Option String) : Except AttemptsError (Page AttemptRow String) :=
  if runId ∉ runs then
    .error .notFound
  else do
    let limit := pageLimit limit
    let position ← cursor.mapM (decodePosition cr)
    let found ← runAttemptsPage cr rows runId (position.map (·.attemptNumber))
      (position.map (·.id)) (limit + 1)
    let views ← (found.mapM attemptViewFromRow).mapError .list
    let items := views.take limit
    let next := items.getLast?.map fun v =>
      cr.write (.attempt ⟨v.attemptNumber, cr.uuidText v.id⟩)
    return ⟨items, if limit < views.length then next else none⟩

variable {cr} {rows : List AttemptRow} {runId : Uuid} {limit : Nat}

-- The query has six placeholders and gets five arguments.
theorem runAttemptsPage_eq_error {number : Option Nat} {id : Option String} :
    runAttemptsPage cr rows runId number id limit = .error .datatypeMismatch :=
  rfl

theorem runAttempts_ne_ok {runs : List Uuid} {limit : Option Nat} {cursor : Option String}
    {page : Page AttemptRow String} : runAttempts cr runs rows runId limit cursor ≠ .ok page := by
  intro h
  rw [runAttempts, Fallible.ite_error_eq_ok] at h
  simp only [Fallible.bind_eq_ok, runAttemptsPage_eq_error] at h
  have ⟨_, _, _, _, h, _⟩ := h
  contradiction

-- No walk over the attempts of a run gets beyond its first request.
theorem run_attempts_never_listed (cr : CursorRuntime) (runs : Nat → List Uuid)
    (rows : Nat → List AttemptRow) (runId : Uuid) (limit : Option Nat) :
    (∃ pages, Walk (fun j => runAttempts cr (runs j) (rows j) runId limit) 0 none pages ∧
      IsComplete pages) ↔ False := by
  refine iff_false_intro fun ⟨pages, w, hc⟩ => ?_
  cases w
  case stop => exact not_isComplete_nil hc
  case last h => exact runAttempts_ne_ok h
  case next h => exact runAttempts_ne_ok h

open Sample

theorem first_attempt_not_listed :
    let attempt : AttemptRow := ⟨2, 1, 1, none, none, newYear 2026⟩
    runAttempts numbering [1] [attempt] 1 none none = .error .datatypeMismatch :=
  rfl

end Attempts

end Scheduler
