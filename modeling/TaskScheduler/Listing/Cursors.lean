import TaskScheduler.Core.Json
import TaskScheduler.Core.Domain
import TaskScheduler.Store.Timestamps

namespace Scheduler

inductive ApiCursorKind
  | agentHealthEvidence
  | schedules
  | runs
  | runEvents
  | runAttempts
  | agents
  | blueprints
  deriving DecidableEq, Repr

namespace ApiCursorKind

def all : List ApiCursorKind :=
  [agentHealthEvidence, schedules, runs, runEvents, runAttempts, agents, blueprints]

def name : ApiCursorKind → String
  | agentHealthEvidence => "agent_health_evidence"
  | schedules           => "schedules"
  | runs                => "runs"
  | runEvents           => "run_events"
  | runAttempts         => "run_attempts"
  | agents              => "agents"
  | blueprints          => "blueprints"

def ofName (text : String) : Option ApiCursorKind :=
  all.find? (·.name = text)

theorem ofName_name (kind : ApiCursorKind) : ofName kind.name = some kind := by
  cases kind <;> decide

end ApiCursorKind

def apiCursorVersion : Nat := 1

def u32Limit : Nat := 2 ^ 32

def i64Limit : Nat := 2 ^ 63

structure TimeCursor where
  timestamp : String
  id        : String

structure IdCursor where
  id : String

structure AttemptCursor where
  attemptNumber : Nat
  id            : String

structure BatchCursor where
  createdAt : String
  id        : Uuid

structure BatchItemCursor where
  itemIndex : Nat
  id        : Uuid

-- What a cursor can be made of.
inductive Cursor
  | time (kind : ApiCursorKind) (position : TimeCursor)
  | id (kind : ApiCursorKind) (position : IdCursor)
  | attempt (position : AttemptCursor)
  | batch (position : BatchCursor)
  | item (position : BatchItemCursor)

namespace Json

def ofNat (n : Nat) : Json :=
  number (String.ofList (Nat.toDigits 10 n))

-- An unsigned integer below a bound.
def natural (bound : Nat) : Json → Option Nat
  | number text =>
    let value := Nat.ofDigitChars 10 text.toList 0
    if text.toList ≠ [] ∧ text.toList.all Char.isDigit ∧ value < bound then some value else none
  | _ => none

def text : Json → Option String
  | string text => some text
  | _           => none

-- The fields of a struct, by name or one after the other. No field is given twice, and with
-- `deny_unknown_fields` there are no others.
def fields (deniesUnknown : Bool) (names : List String) : Json → Option (List Json)
  | object members =>
    let given := members.map Prod.fst
    if (given.filter (· ∈ names)).Nodup ∧ (deniesUnknown → ∀ name ∈ given, name ∈ names) then
      names.mapM fun name => members.lookup name
    else
      none
  | array items => if items.length = names.length then some items else none
  | _           => none

theorem natural_ofNat {bound n : Nat} (h : n < bound) : natural bound (ofNat n) = some n := by
  simp only [natural, ofNat, String.toList_ofList, Nat.ofDigitChars_ten_toDigits]
  exact if_pos ⟨Nat.toDigits_ne_nil, Digits.isDigit_toDigits, h⟩

end Json

namespace Cursor

variable (uuidText : Uuid → String)

def envelope (kind : ApiCursorKind) (position : Json) : Json :=
  .object
    [("version", .ofNat apiCursorVersion), ("kind", .string kind.name), ("position", position)]

-- The document that a cursor is the text of.
def json : Cursor → Json
  | time kind position  =>
    envelope kind <|
      .object [("timestamp", .string position.timestamp), ("id", .string position.id)]
  | id kind position    => envelope kind <| .object [("id", .string position.id)]
  | attempt position    =>
    envelope .runAttempts <|
      .object [("attempt_number", .ofNat position.attemptNumber), ("id", .string position.id)]
  | batch position      =>
    .object [("created_at", .string position.createdAt), ("id", .string (uuidText position.id))]
  | item position       =>
    .object [("item_index", .ofNat position.itemIndex), ("id", .string (uuidText position.id))]

end Cursor

-- The libraries for cursors: JSON and base64, and the text form of a UUID.
structure CursorRuntime where
  uuidText       : Uuid → String
  parseUuid      : String → Option Uuid
  parse_uuidText : ∀ id, parseUuid (uuidText id) = some id
  write          : Cursor → String
  read           : String → Option Json
  read_write     : ∀ cursor, read (write cursor) = some (cursor.json uuidText)

namespace CursorRuntime

variable (cr : CursorRuntime)

def readTimeCursor (json : Json) : Option TimeCursor := do
  match ← json.fields true ["timestamp", "id"] with
  | [timestamp, id] => return ⟨← timestamp.text, ← id.text⟩
  | _               => none

def readIdCursor (json : Json) : Option IdCursor := do
  match ← json.fields true ["id"] with
  | [id] => return ⟨← id.text⟩
  | _    => none

def readAttemptCursor (json : Json) : Option AttemptCursor := do
  match ← json.fields true ["attempt_number", "id"] with
  | [attemptNumber, id] => return ⟨← attemptNumber.natural u32Limit, ← id.text⟩
  | _                   => none

def readBatchCursor (json : Json) : Option BatchCursor := do
  match ← json.fields false ["created_at", "id"] with
  | [createdAt, id] => return ⟨← createdAt.text, ← id.text >>= cr.parseUuid⟩
  | _               => none

def readBatchItemCursor (json : Json) : Option BatchItemCursor := do
  match ← json.fields false ["item_index", "id"] with
  | [itemIndex, id] => return ⟨← itemIndex.natural u32Limit, ← id.text >>= cr.parseUuid⟩
  | _               => none

-- `decode_api_cursor`
def decodeApiCursor {α : Type} (position : Json → Option α) (expectedKind : ApiCursorKind)
    (cursor : String) : Option α := do
  match ← (← cr.read cursor).fields true ["version", "kind", "position"] with
  | [version, kind, position'] =>
    let version ← version.natural 256
    let kind ← (← kind.text) |> ApiCursorKind.ofName
    let position ← position position'
    if version ≠ apiCursorVersion ∨ kind ≠ expectedKind then none else return position
  | _ => none

-- `validate_cursor_timestamp`
def isCursorTimestamp (timestamp : String) : Bool :=
  (Timestamp.parseTime timestamp).any (Timestamp.formatTime · = timestamp)

-- `validate_cursor_uuid`
def isCursorUuid (id : String) : Bool :=
  (cr.parseUuid id).any (cr.uuidText · = id)

end CursorRuntime

def isCanonicalDigest (value : String) : Bool :=
  value.utf8ByteSize = 64 && value.toList.all fun c => c.isDigit || ('a' ≤ c && c ≤ 'f')

-- `validate_agent_id`
def isAgentId (id : String) : Bool :=
  1 ≤ id.utf8ByteSize && id.utf8ByteSize ≤ 64 && id.toList.head?.any Char.isAlphanum &&
    id.toList.getLast?.any Char.isAlphanum &&
    id.toList.all fun c => c.isAlphanum || c = '.' || c = '_' || c = '-'

namespace CursorRuntime

variable (cr : CursorRuntime)

-- A cursor of a time and an id, where the id has to be of some form.
def decodeTimeCursor (isId : String → Bool) (kind : ApiCursorKind) (cursor : String) :
    Option TimeCursor := do
  let position ← cr.decodeApiCursor readTimeCursor kind cursor
  if isCursorTimestamp position.timestamp && isId position.id then return position else none

def decodeTimeUuidCursor (kind : ApiCursorKind) : String → Option TimeCursor :=
  cr.decodeTimeCursor cr.isCursorUuid kind

def decodeBlueprintCursor : String → Option TimeCursor :=
  cr.decodeTimeCursor isCanonicalDigest .blueprints

def decodeAgentCursor (cursor : String) : Option IdCursor := do
  let position ← cr.decodeApiCursor readIdCursor .agents cursor
  if isAgentId position.id then return position else none

def decodeEventCursor (cursor : String) : Option Nat := do
  let position ← cr.decodeApiCursor readIdCursor .runEvents cursor
  -- A negative number is refused like one that does not parse.
  let id ← Digits.parse i64Limit position.id.toList
  if id = 0 ∨ Nat.toDigits 10 id ≠ position.id.toList then none else return id

def decodeAttemptCursor (cursor : String) : Option AttemptCursor := do
  let position ← cr.decodeApiCursor readAttemptCursor .runAttempts cursor
  if position.attemptNumber ≠ 0 && cr.isCursorUuid position.id then return position else none

def decodeBatchCursor (cursor : String) : Option BatchCursor := do
  cr.readBatchCursor (← cr.read cursor)

def decodeBatchItemCursor (cursor : String) : Option BatchItemCursor := do
  cr.readBatchItemCursor (← cr.read cursor)

variable {cr} {kind kind' : ApiCursorKind} {cursor : String} {json : Json}

theorem decodeApiCursor_envelope {α : Type} {position : Json → Option α}
    (h : cr.read cursor = some (Cursor.envelope kind json)) :
    cr.decodeApiCursor position kind' cursor = if kind = kind' then position json else none := by
  have hv : Json.natural 256 (.ofNat apiCursorVersion) = some apiCursorVersion :=
    Json.natural_ofNat (by decide)
  have hf : (Cursor.envelope kind json).fields true ["version", "kind", "position"] =
      some [.ofNat apiCursorVersion, .string kind.name, json] := by
    simp [Cursor.envelope, Json.fields, List.lookup]
  simp only [decodeApiCursor, h, Option.bind_eq_bind, Option.bind_some, hf, hv, Json.text,
    ApiCursorKind.ofName_name, ne_eq, not_true_eq_false, false_or]
  by_cases hk : kind = kind'
  case pos => simp [hk]
  case neg => simp [hk]

-- A document that is no envelope.
theorem decodeApiCursor_eq_none {α : Type} {position : Json → Option α}
    {members : List (String × Json)} (h : cr.read cursor = some (.object members))
    (hv : members.lookup "version" = none) : cr.decodeApiCursor position kind cursor = none := by
  have hf : (Json.object members).fields true ["version", "kind", "position"] = none := by
    simp [Json.fields, hv]
  simp [decodeApiCursor, h, hf]

theorem readTimeCursor_json {c : TimeCursor} : readTimeCursor
    (.object [("timestamp", .string c.timestamp), ("id", .string c.id)]) = some c := by
  simp [readTimeCursor, Json.fields, List.lookup, Json.text]

theorem readIdCursor_json {c : IdCursor} :
    readIdCursor (.object [("id", .string c.id)]) = some c := by
  simp [readIdCursor, Json.fields, List.lookup, Json.text]

theorem decodeBatchCursor_write {c : BatchCursor} :
    cr.decodeBatchCursor (cr.write (.batch c)) = some c := by
  simp [decodeBatchCursor, cr.read_write, Cursor.json, readBatchCursor, Json.fields, List.lookup,
    Json.text, cr.parse_uuidText]

theorem decodeBatchItemCursor_write {c : BatchItemCursor} (h : c.itemIndex < u32Limit) :
    cr.decodeBatchItemCursor (cr.write (.item c)) = some c := by
  simp [decodeBatchItemCursor, cr.read_write, Cursor.json, readBatchItemCursor, Json.fields,
    List.lookup, Json.text, cr.parse_uuidText, Json.natural_ofNat h]

theorem uuidText_injective : Function.Injective cr.uuidText := by
  intro id id' h
  have hp := cr.parse_uuidText id
  rw [h, cr.parse_uuidText] at hp
  exact (Option.some.inj hp).symm

theorem isCursorUuid_uuidText {id : Uuid} : cr.isCursorUuid (cr.uuidText id) := by
  simp [isCursorUuid, cr.parse_uuidText]

end CursorRuntime

end Scheduler
