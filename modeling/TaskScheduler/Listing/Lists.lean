import TaskScheduler.Library.Paging
import TaskScheduler.Listing.Cursors

namespace Scheduler

open Paging Timestamp

inductive ListError
  | invalidCursor (message : String)
  | unreadableRow
  deriving DecidableEq, Repr

-- `page_limit`
def pageLimit (limit : Option Nat) : Nat :=
  max 1 (min (limit.getD 50) 200)

-- The columns of the lists that tell their order or that have to be parsed. A time stands for the
-- text that `format_time` made of it.
structure ScheduleRow where
  id        : Uuid
  createdAt : Instant
  updatedAt : Instant

structure RunRow where
  id          : Uuid
  scheduledAt : Instant
  createdAt   : Instant
  updatedAt   : Instant

structure BatchRow where
  id          : Uuid
  scheduledAt : Instant
  createdAt   : Instant
  updatedAt   : Instant

-- The provider key is `none` if no key of the coordinator decrypts it.
structure BatchItemRow where
  id              : Uuid
  batchId         : Uuid
  itemIndex       : Fin u32Limit
  providerKeyHmac : String
  providerKey     : Option String
  createdAt       : Instant
  updatedAt       : Instant

structure EvidenceRow where
  id         : Uuid
  agentId    : String
  occurredAt : Instant

-- A digest is the text of a hash in hexadecimal.
structure BlueprintRow where
  digest    : String
  loadedAt  : Instant
  canonical : isCanonicalDigest digest

-- An agent is only taken on with a valid id.
structure AgentRow where
  id         : String
  lastSeenAt : Instant
  valid      : isAgentId id

-- `INTEGER PRIMARY KEY AUTOINCREMENT`
structure EventRow where
  id         : Nat
  runId      : Uuid
  occurredAt : Instant
  positive   : 0 < id
  bounded    : id < i64Limit

namespace Api

-- `parse_time` of a column.
def parseColumn (t : Instant) : Except ListError Instant :=
  (parseTime (formatTime t)).elim (.error .unreadableRow) .ok

def scheduleViewFromRow (r : ScheduleRow) : Except ListError ScheduleRow := do
  return { r with createdAt := ← parseColumn r.createdAt, updatedAt := ← parseColumn r.updatedAt }

def runViewFromRow (r : RunRow) : Except ListError RunRow := do
  return { r with
    scheduledAt := ← parseColumn r.scheduledAt
    createdAt   := ← parseColumn r.createdAt
    updatedAt   := ← parseColumn r.updatedAt
  }

def batchViewFromRow (r : BatchRow) : Except ListError BatchRow := do
  return { r with
    scheduledAt := ← parseColumn r.scheduledAt
    createdAt   := ← parseColumn r.createdAt
    updatedAt   := ← parseColumn r.updatedAt
  }

def itemViewFromRow (r : BatchItemRow) : Except ListError BatchItemRow := do
  let createdAt ← parseColumn r.createdAt
  let updatedAt ← parseColumn r.updatedAt
  if r.providerKey.isNone then .error .unreadableRow else return { r with createdAt, updatedAt }

def mapHealthEvidence (r : EvidenceRow) : Except ListError EvidenceRow := do
  return { r with occurredAt := ← parseColumn r.occurredAt }

def blueprintRevisionFromRow (r : BlueprintRow) : Except ListError BlueprintRow := do
  return { r with loadedAt := ← parseColumn r.loadedAt }

def agentFromRow (r : AgentRow) : Except ListError AgentRow := do
  return { r with lastSeenAt := ← parseColumn r.lastSeenAt }

def eventFromRow (r : EventRow) : Except ListError EventRow := do
  return { r with occurredAt := ← parseColumn r.occurredAt }

-- `ORDER BY time DESC, id DESC`
abbrev TimeKey := (String ×ₗ String)ᵒᵈ

def timeKey (time id : String) : TimeKey :=
  OrderDual.toDual (toLex (time, id))

-- `time<? OR (time=? AND id<?)`
theorem timeKey_lt {time id time' id' : String} :
    timeKey time' id' < timeKey time id ↔ time < time' ∨ time = time' ∧ id < id' := by
  rw [timeKey, timeKey, OrderDual.toDual_lt_toDual, Prod.Lex.toLex_lt_toLex]

def decoded {α : Type} (message : String) : Option α → Except ListError α
  | none   => .error (.invalidCursor message)
  | some a => .ok a

variable (cr : CursorRuntime)

-- The lists in the order of a time.
def timeListing {ρ : Type} (kind : ApiCursorKind) (view : ρ → Except ListError ρ)
    (time : ρ → Instant) (id : ρ → String) (decode : String → Option TimeCursor) :
    Listing ρ ρ TimeKey String ListError where
  key r          := timeKey (formatTime (time r)) (id r)
  view           := view
  encode v       := cr.write <| .time kind ⟨formatTime (time v), id v⟩
  decode cursor  := do
    let position ← decoded "invalid pagination cursor" (decode cursor)
    return timeKey position.timestamp position.id
  readsLookAhead := true

def listSchedules : Listing ScheduleRow ScheduleRow TimeKey String ListError :=
  timeListing cr .schedules scheduleViewFromRow (·.createdAt) (cr.uuidText ·.id)
    (cr.decodeTimeUuidCursor .schedules)

def listRuns : Listing RunRow RunRow TimeKey String ListError :=
  timeListing cr .runs runViewFromRow (·.createdAt) (cr.uuidText ·.id)
    (cr.decodeTimeUuidCursor .runs)

def getAgentHealthEvidence : Listing EvidenceRow EvidenceRow TimeKey String ListError :=
  timeListing cr .agentHealthEvidence mapHealthEvidence (·.occurredAt) (cr.uuidText ·.id)
    (cr.decodeTimeUuidCursor .agentHealthEvidence)

def listBlueprints : Listing BlueprintRow BlueprintRow TimeKey String ListError :=
  timeListing cr .blueprints blueprintRevisionFromRow (·.loadedAt) (·.digest)
    cr.decodeBlueprintCursor

-- The row that is looked ahead to is not parsed.
def listBatches : Listing BatchRow BatchRow TimeKey String ListError where
  key r          := timeKey (formatTime r.createdAt) (cr.uuidText r.id)
  view           := batchViewFromRow
  encode v       := cr.write <| .batch ⟨formatTime v.createdAt, v.id⟩
  decode cursor  := do
    let position ← decoded "pagination_cursor_invalid" (cr.decodeBatchCursor cursor)
    return timeKey position.createdAt (cr.uuidText position.id)
  readsLookAhead := false

-- `ORDER BY item_index, id`
abbrev ItemKey := Nat ×ₗ String

def listBatchItems : Listing BatchItemRow BatchItemRow ItemKey String ListError where
  key r          := toLex (r.itemIndex.val, cr.uuidText r.id)
  view           := itemViewFromRow
  encode v       := cr.write <| .item ⟨v.itemIndex, v.id⟩
  decode cursor  := do
    let position ← decoded "pagination_cursor_invalid" (cr.decodeBatchItemCursor cursor)
    return toLex (position.itemIndex, cr.uuidText position.id)
  readsLookAhead := false

def listAgents : Listing AgentRow AgentRow String String ListError where
  key r          := r.id
  view           := agentFromRow
  encode v       := cr.write <| .id .agents ⟨v.id⟩
  decode cursor  := do
    return (← decoded "invalid pagination cursor" (cr.decodeAgentCursor cursor)).id
  readsLookAhead := true

-- `ORDER BY id DESC`
def runEvents : Listing EventRow EventRow Natᵒᵈ String ListError where
  key r          := OrderDual.toDual r.id
  view           := eventFromRow
  encode v       := cr.write <| .id .runEvents ⟨String.ofList (Nat.toDigits 10 v.id)⟩
  decode cursor  := do
    return OrderDual.toDual (← decoded "invalid pagination cursor" (cr.decodeEventCursor cursor))
  readsLookAhead := true

section Lawful

variable {cr} {t u : Instant}

theorem format_truncated : formatTime t.truncated = formatTime t := by
  have hl : (10 ^ 9 ≤ t.nano / 10 ^ 6 * 10 ^ 6) ↔ 10 ^ 9 ≤ t.nano := by omega
  have hm : t.nano / 10 ^ 6 * 10 ^ 6 % 10 ^ 9 / 10 ^ 6 = t.nano % 10 ^ 9 / 10 ^ 6 := by omega
  simp only [formatTime, writeRest, Instant.truncated, hl, hm]

theorem parseColumn_eq_ok : parseColumn t = .ok u ↔ t.InRange ∧ u = t.truncated := by
  by_cases h : t.InRange
  case pos => simp [parseColumn, parse_format h, h, eq_comm]
  case neg => simp [parseColumn, parse_format_eq_none h, h]

-- A view is the row without the parts of milliseconds.
section Views

theorem scheduleViewFromRow_eq_ok {r v : ScheduleRow} : scheduleViewFromRow r = .ok v ↔
    (r.createdAt.InRange ∧ r.updatedAt.InRange) ∧
    v = { r with createdAt := r.createdAt.truncated, updatedAt := r.updatedAt.truncated } := by
  simp only [scheduleViewFromRow, Fallible.bind_eq_ok, parseColumn_eq_ok, pure, Except.pure,
    Except.ok.injEq]
  grind

theorem runViewFromRow_eq_ok {r v : RunRow} : runViewFromRow r = .ok v ↔
    (r.scheduledAt.InRange ∧ r.createdAt.InRange ∧ r.updatedAt.InRange) ∧
    v = ⟨r.id, r.scheduledAt.truncated, r.createdAt.truncated, r.updatedAt.truncated⟩ := by
  simp only [runViewFromRow, Fallible.bind_eq_ok, parseColumn_eq_ok, pure, Except.pure,
    Except.ok.injEq]
  grind

theorem batchViewFromRow_eq_ok {r v : BatchRow} : batchViewFromRow r = .ok v ↔
    (r.scheduledAt.InRange ∧ r.createdAt.InRange ∧ r.updatedAt.InRange) ∧
    v = ⟨r.id, r.scheduledAt.truncated, r.createdAt.truncated, r.updatedAt.truncated⟩ := by
  simp only [batchViewFromRow, Fallible.bind_eq_ok, parseColumn_eq_ok, pure, Except.pure,
    Except.ok.injEq]
  grind

theorem itemViewFromRow_eq_ok {r v : BatchItemRow} : itemViewFromRow r = .ok v ↔
    (r.createdAt.InRange ∧ r.updatedAt.InRange ∧ r.providerKey.isSome) ∧
    v = { r with createdAt := r.createdAt.truncated, updatedAt := r.updatedAt.truncated } := by
  simp only [itemViewFromRow, Fallible.bind_eq_ok, parseColumn_eq_ok, Fallible.ite_error_eq_ok,
    pure, Except.pure, Except.ok.injEq, Bool.not_eq_true, Option.isNone_eq_false_iff]
  grind

theorem mapHealthEvidence_eq_ok {r v : EvidenceRow} : mapHealthEvidence r = .ok v ↔
    r.occurredAt.InRange ∧ v = { r with occurredAt := r.occurredAt.truncated } := by
  simp only [mapHealthEvidence, Fallible.bind_eq_ok, parseColumn_eq_ok, pure, Except.pure,
    Except.ok.injEq]
  grind

theorem blueprintRevisionFromRow_eq_ok {r v : BlueprintRow} : blueprintRevisionFromRow r = .ok v ↔
    r.loadedAt.InRange ∧ v = { r with loadedAt := r.loadedAt.truncated } := by
  simp only [blueprintRevisionFromRow, Fallible.bind_eq_ok, parseColumn_eq_ok, pure, Except.pure,
    Except.ok.injEq]
  grind

theorem agentFromRow_eq_ok {r v : AgentRow} : agentFromRow r = .ok v ↔
    r.lastSeenAt.InRange ∧ v = { r with lastSeenAt := r.lastSeenAt.truncated } := by
  simp only [agentFromRow, Fallible.bind_eq_ok, parseColumn_eq_ok, pure, Except.pure,
    Except.ok.injEq]
  grind

theorem eventFromRow_eq_ok {r v : EventRow} : eventFromRow r = .ok v ↔
    r.occurredAt.InRange ∧ v = { r with occurredAt := r.occurredAt.truncated } := by
  simp only [eventFromRow, Fallible.bind_eq_ok, parseColumn_eq_ok, pure, Except.pure,
    Except.ok.injEq]
  grind

end Views

theorem isCursorTimestamp_format (h : t.InRange) :
    CursorRuntime.isCursorTimestamp (formatTime t) := by
  simp [CursorRuntime.isCursorTimestamp, parse_format h, format_truncated]

theorem decodeTimeCursor_write {isId : String → Bool} {kind : ApiCursorKind} {id : String}
    (h : t.InRange) (hi : isId id) :
    cr.decodeTimeCursor isId kind (cr.write (.time kind ⟨formatTime t, id⟩)) =
      some ⟨formatTime t, id⟩ := by
  have hr : cr.decodeApiCursor CursorRuntime.readTimeCursor kind
      (cr.write (.time kind ⟨formatTime t, id⟩)) = some ⟨formatTime t, id⟩ := by
    rw [CursorRuntime.decodeApiCursor_envelope (cr.read_write _), if_pos rfl]
    exact CursorRuntime.readTimeCursor_json
  simp [CursorRuntime.decodeTimeCursor, hr, isCursorTimestamp_format h, hi]

theorem timeListing_lawful {ρ : Type} {kind : ApiCursorKind} {view : ρ → Except ListError ρ}
    {time : ρ → Instant} {id : ρ → String} {isId : String → Bool}
    (h : ∀ r v, view r = .ok v → (time r).InRange ∧ time v = (time r).truncated ∧ id v = id r ∧
      isId (id r)) :
    (timeListing cr kind view time id (cr.decodeTimeCursor isId kind)).Lawful := by
  intro r v hv
  have ⟨hr, ht, hi, hd⟩ := h r v hv
  simp only [timeListing, ht, format_truncated, hi, decodeTimeCursor_write hr hd, decoded]
  rfl

theorem listBatches_lawful : (listBatches cr).Lawful := by
  intro r v hv
  have ⟨_, hv⟩ := batchViewFromRow_eq_ok.mp hv
  rw [hv]
  simp only [listBatches, CursorRuntime.decodeBatchCursor_write, decoded, format_truncated]
  rfl

theorem listBatchItems_lawful : (listBatchItems cr).Lawful := by
  intro r v hv
  have ⟨_, hv⟩ := itemViewFromRow_eq_ok.mp hv
  rw [hv]
  simp only [listBatchItems, decoded]
  rw [CursorRuntime.decodeBatchItemCursor_write r.itemIndex.isLt]
  rfl

theorem listAgents_lawful : (listAgents cr).Lawful := by
  intro r v hv
  have ⟨_, hv⟩ := agentFromRow_eq_ok.mp hv
  rw [hv]
  have hr : cr.decodeAgentCursor (cr.write (.id .agents ⟨r.id⟩)) = some ⟨r.id⟩ := by
    rw [CursorRuntime.decodeAgentCursor,
      CursorRuntime.decodeApiCursor_envelope (cr.read_write _), if_pos rfl,
      CursorRuntime.readIdCursor_json (c := ⟨r.id⟩)]
    simp [r.valid]
  simp only [listAgents, hr, decoded]
  rfl

theorem runEvents_lawful : (runEvents cr).Lawful := by
  intro r v hv
  have ⟨_, hv⟩ := eventFromRow_eq_ok.mp hv
  rw [hv]
  have hr : cr.decodeEventCursor
      (cr.write (.id .runEvents ⟨String.ofList (Nat.toDigits 10 r.id)⟩)) = some r.id := by
    rw [CursorRuntime.decodeEventCursor,
      CursorRuntime.decodeApiCursor_envelope (cr.read_write _), if_pos rfl,
      CursorRuntime.readIdCursor_json (c := ⟨_⟩)]
    simp [Digits.parse_toDigits r.bounded, r.positive.ne']
  simp only [runEvents, hr, decoded]
  rfl

end Lawful

end Api

-- The lists of the API. Three are parts of a table.
inductive ListKind
  | schedules
  | runs
  | batches
  | batchItems (batchId : Uuid) (providerKeyHmac : Option String)
  | healthEvidence (agentId : String)
  | blueprints
  | agents
  | runEvents (runId : Uuid)

namespace ListKind

open Api

def Row : ListKind → Type
  | schedules        => ScheduleRow
  | runs             => RunRow
  | batches          => BatchRow
  | batchItems _ _   => BatchItemRow
  | healthEvidence _ => EvidenceRow
  | blueprints       => BlueprintRow
  | agents           => AgentRow
  | runEvents _      => EventRow

def Key : ListKind → Type
  | batchItems _ _ => ItemKey
  | agents         => String
  | runEvents _    => Natᵒᵈ
  | _              => TimeKey

instance : (k : ListKind) → LinearOrder k.Key
  | schedules | runs | batches | healthEvidence _ | blueprints =>
    inferInstanceAs (LinearOrder TimeKey)
  | batchItems _ _ => inferInstanceAs (LinearOrder ItemKey)
  | agents         => inferInstanceAs (LinearOrder String)
  | runEvents _    => inferInstanceAs (LinearOrder Natᵒᵈ)

def listing (cr : CursorRuntime) : (k : ListKind) → Listing k.Row k.Row k.Key String ListError
  | schedules        => listSchedules cr
  | runs             => listRuns cr
  | batches          => listBatches cr
  | batchItems _ _   => listBatchItems cr
  | healthEvidence _ => getAgentHealthEvidence cr
  | blueprints       => listBlueprints cr
  | agents           => listAgents cr
  | runEvents _      => Api.runEvents cr

-- The conditions of the query apart from the cursor.
def selects : (k : ListKind) → k.Row → Bool
  | batchItems batchId hmac, r => r.batchId = batchId && hmac.all (r.providerKeyHmac = ·)
  | healthEvidence agentId, r  => r.agentId = agentId
  | runEvents runId, r         => r.runId = runId
  | schedules, _ | runs, _ | batches, _ | blueprints, _ | agents, _ => true

-- The primary key.
def id : (k : ListKind) → k.Row → Uuid ⊕ String
  | schedules, r | runs, r | batches, r | batchItems _ _, r | healthEvidence _, r
  | runEvents _, r => .inl r.id
  | blueprints, r => .inr r.digest
  | agents, r     => .inr r.id

-- All that is parsed of a row can be parsed.
def Legible : (k : ListKind) → k.Row → Prop
  | schedules, r        => r.createdAt.InRange ∧ r.updatedAt.InRange
  | runs, r | batches, r => r.scheduledAt.InRange ∧ r.createdAt.InRange ∧ r.updatedAt.InRange
  | batchItems _ _, r   => r.createdAt.InRange ∧ r.updatedAt.InRange ∧ r.providerKey.isSome
  | healthEvidence _, r | runEvents _, r => r.occurredAt.InRange
  | blueprints, r       => r.loadedAt.InRange
  | agents, r           => r.lastSeenAt.InRange

variable {cr : CursorRuntime} {k : ListKind} {r v : k.Row}

theorem exists_view_iff : (∃ v, (k.listing cr).Shows r v) ↔ k.Legible r := by
  have he {ρ : Type} {view : ρ → Except ListError ρ} {p : Prop} {r v : ρ}
      (h : ∀ {v'}, view r = .ok v' ↔ p ∧ v' = v) : (∃ v, view r = .ok v) ↔ p := by
    simp [h]
  cases k
  case schedules => exact he scheduleViewFromRow_eq_ok
  case runs => exact he runViewFromRow_eq_ok
  case batches => exact he batchViewFromRow_eq_ok
  case batchItems => exact he itemViewFromRow_eq_ok
  case healthEvidence => exact he mapHealthEvidence_eq_ok
  case blueprints => exact he blueprintRevisionFromRow_eq_ok
  case agents => exact he agentFromRow_eq_ok
  case runEvents => exact he eventFromRow_eq_ok

theorem listing_lawful : (k.listing cr).Lawful := by
  cases k
  case schedules =>
    refine timeListing_lawful fun r v hv => ?_
    have ⟨hr, hv⟩ := scheduleViewFromRow_eq_ok.mp hv
    exact ⟨hr.left, hv ▸ rfl, hv ▸ rfl, CursorRuntime.isCursorUuid_uuidText⟩
  case runs =>
    refine timeListing_lawful fun r v hv => ?_
    have ⟨hr, hv⟩ := runViewFromRow_eq_ok.mp hv
    exact ⟨hr.right.left, hv ▸ rfl, hv ▸ rfl, CursorRuntime.isCursorUuid_uuidText⟩
  case healthEvidence =>
    refine timeListing_lawful fun r v hv => ?_
    have ⟨hr, hv⟩ := mapHealthEvidence_eq_ok.mp hv
    exact ⟨hr, hv ▸ rfl, hv ▸ rfl, CursorRuntime.isCursorUuid_uuidText⟩
  case blueprints =>
    refine timeListing_lawful fun r v hv => ?_
    have ⟨hr, hv⟩ := blueprintRevisionFromRow_eq_ok.mp hv
    exact ⟨hr, hv ▸ rfl, hv ▸ rfl, r.canonical⟩
  case batches => exact listBatches_lawful
  case batchItems => exact listBatchItems_lawful
  case agents => exact listAgents_lawful
  case runEvents => exact runEvents_lawful

theorem id_eq_of_key {r r' : k.Row} (h : (k.listing cr).key r = (k.listing cr).key r') :
    k.id r = k.id r' := by
  have hu {id id' : Uuid} (h : cr.uuidText id = cr.uuidText id') : id = id' :=
    CursorRuntime.uuidText_injective h
  have ht {time time' id id' : String} (h : timeKey time id = timeKey time' id') : id = id' :=
    congrArg (fun key => (ofLex (OrderDual.ofDual key)).2) h
  cases k
  case schedules | runs | batches | healthEvidence => exact congrArg Sum.inl (hu (ht h))
  case blueprints => exact congrArg Sum.inr (ht h)
  case agents => exact congrArg Sum.inr h
  case runEvents => exact congrArg Sum.inl h
  case batchItems => exact congrArg Sum.inl (hu (congrArg (fun key => (ofLex key).2) h))

end ListKind

end Scheduler
