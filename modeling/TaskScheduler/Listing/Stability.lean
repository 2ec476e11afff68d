import TaskScheduler.Listing.Lists

namespace Scheduler.ListKind

open Paging Api

-- The kind that is written into the cursors of a list, where they have one.
def apiKind : ListKind → Option ApiCursorKind
  | schedules                => some .schedules
  | runs                     => some .runs
  | healthEvidence _         => some .agentHealthEvidence
  | blueprints               => some .blueprints
  | agents                   => some .agents
  | runEvents _              => some .runEvents
  | batches | batchItems _ _ => none

def name : ListKind → String
  | schedules        => "schedules"
  | runs             => "runs"
  | batches          => "batches"
  | batchItems _ _   => "batch items"
  | healthEvidence _ => "health evidence"
  | blueprints       => "blueprints"
  | agents           => "agents"
  | runEvents _      => "run events"

section Foreign

variable {cr : CursorRuntime} {k k' : ListKind} {kind : ApiCursorKind} {cursor : String}
  {members : List (String × Json)}

-- What the cursors of a list are the texts of.
theorem read_encode (cr : CursorRuntime) (v : k.Row) : ∃ json,
    cr.read ((k.listing cr).encode v) = some json ∧
    ((∃ kind position, k.apiKind = some kind ∧ json = Cursor.envelope kind position) ∨
      (k.name = "batches" ∧ ∃ a b, json = .object [("created_at", a), ("id", b)]) ∨
      (k.name = "batch items" ∧ ∃ a b, json = .object [("item_index", a), ("id", b)])) := by
  cases k
  case batches => exact ⟨_, cr.read_write _, .inr <| .inl ⟨rfl, _, _, rfl⟩⟩
  case batchItems => exact ⟨_, cr.read_write _, .inr <| .inr ⟨rfl, _, _, rfl⟩⟩
  all_goals exact ⟨_, cr.read_write _, .inl ⟨_, _, rfl, rfl⟩⟩

theorem decode_eq_error (hk : k.apiKind = some kind)
    (h : ∀ {α : Type} (position : Json → Option α),
      cr.decodeApiCursor position kind cursor = none) :
    (k.listing cr).decode cursor = .error (.invalidCursor "invalid pagination cursor") := by
  cases k <;> cases hk
  case schedules | runs | healthEvidence | blueprints =>
    simp only [listing, listSchedules, listRuns, getAgentHealthEvidence, listBlueprints,
      timeListing, CursorRuntime.decodeTimeUuidCursor, CursorRuntime.decodeBlueprintCursor,
      CursorRuntime.decodeTimeCursor, h]
    rfl
  case agents =>
    simp only [listing, listAgents, CursorRuntime.decodeAgentCursor, h]
    rfl
  case runEvents =>
    simp only [listing, Api.runEvents, CursorRuntime.decodeEventCursor, h]
    rfl

theorem decode_batches_eq_error (h : cr.read cursor = some (.object members))
    (hm : members.lookup "created_at" = none) :
    (listing cr .batches).decode cursor = .error (.invalidCursor "pagination_cursor_invalid") := by
  have hf : (Json.object members).fields false ["created_at", "id"] = none := by
    simp [Json.fields, hm]
  simp only [listing, listBatches, CursorRuntime.decodeBatchCursor, CursorRuntime.readBatchCursor,
    h, Option.bind_eq_bind, Option.bind_some, hf]
  rfl

theorem decode_batchItems_eq_error {batchId : Uuid} {hmac : Option String}
    (h : cr.read cursor = some (.object members)) (hm : members.lookup "item_index" = none) :
    (listing cr (.batchItems batchId hmac)).decode cursor =
      .error (.invalidCursor "pagination_cursor_invalid") := by
  have hf : (Json.object members).fields false ["item_index", "id"] = none := by
    simp [Json.fields, hm]
  simp only [listing, listBatchItems, CursorRuntime.decodeBatchItemCursor,
    CursorRuntime.readBatchItemCursor, h, Option.bind_eq_bind, Option.bind_some, hf]
  rfl

theorem name_eq_of_apiKind (h : k.apiKind = some kind) (h' : k'.apiKind = some kind) :
    k.name = k'.name := by
  cases k <;> cases h <;> cases k' <;> cases h' <;> rfl

-- A cursor is refused by every list of another kind.
theorem decode_foreign (hn : k.name ≠ k'.name) (v : k.Row) : ∃ message,
    (k'.listing cr).decode ((k.listing cr).encode v) = .error (.invalidCursor message) := by
  have ⟨json, hr, hj⟩ := read_encode cr v
  cases hk : k'.apiKind
  case some kind' =>
    refine ⟨_, decode_eq_error hk fun position => ?_⟩
    rcases hj with ⟨kind, _, hk', rfl⟩ | ⟨_, a, b, rfl⟩ | ⟨_, a, b, rfl⟩
    case inl =>
      have hne : kind ≠ kind' := fun he => hn <| name_eq_of_apiKind hk' (he ▸ hk)
      rw [CursorRuntime.decodeApiCursor_envelope hr, if_neg hne]
    case inr.inl => exact CursorRuntime.decodeApiCursor_eq_none hr rfl
    case inr.inr => exact CursorRuntime.decodeApiCursor_eq_none hr rfl
  case none =>
    cases k' <;> cases hk
    case batches =>
      rcases hj with ⟨kind, _, hk', rfl⟩ | ⟨he, _⟩ | ⟨_, a, b, rfl⟩
      case inl => exact ⟨_, decode_batches_eq_error hr rfl⟩
      case inr.inl => exact absurd he hn
      case inr.inr => exact ⟨_, decode_batches_eq_error hr rfl⟩
    case batchItems =>
      rcases hj with ⟨kind, _, hk', rfl⟩ | ⟨_, a, b, rfl⟩ | ⟨he, _⟩
      case inl => exact ⟨_, decode_batchItems_eq_error hr rfl⟩
      case inr.inl => exact ⟨_, decode_batchItems_eq_error hr rfl⟩
      case inr.inr => exact absurd he hn

end Foreign

-- A table at the requests of a walk. Between them rows are added, and updates leave alone the
-- columns of the order and of the conditions.
structure History (cr : CursorRuntime) (k : ListKind) where
  table  : Nat → List k.Row
  unique : ∀ j, ((table j).map k.id).Nodup
  keeps  : ∀ j, ∀ r ∈ table j, ∃ r' ∈ table (j + 1),
    (k.listing cr).key r' = (k.listing cr).key r ∧ (k.selects r → k.selects r')

namespace History

variable {cr : CursorRuntime} {k : ListKind} (h : History cr k)

-- The rows of the list.
def rows (j : Nat) : List k.Row :=
  (h.table j).filter k.selects

def fetch (limit : Option Nat) (j : Nat) : Option String → Except ListError (Page k.Row String) :=
  (k.listing cr).serve (pageLimit limit) (h.rows j)

-- From some request on, the list has no further rows.
def Settles : Prop :=
  ∃ N, ∀ j ≥ N, ∀ r ∈ h.rows j, ∃ r' ∈ h.rows N, (k.listing cr).key r' = (k.listing cr).key r

variable {h} {limit : Option Nat} {j : Nat} {r : k.Row}

theorem rows_nodup : ((h.rows j).map (k.listing cr).key).Nodup := by
  have hu : (h.rows j).Pairwise (k.id · ≠ k.id ·) :=
    (List.pairwise_map.mp (h.unique j)).sublist List.filter_sublist
  exact List.pairwise_map.mpr <| hu.imp fun hne he => hne <| id_eq_of_key he

theorem rows_keep (hr : r ∈ h.rows j) :
    ∃ r' ∈ h.rows (j + 1), (k.listing cr).key r' = (k.listing cr).key r := by
  have ⟨hr, hs⟩ := List.mem_filter.mp hr
  have ⟨r', hr', hk, hs'⟩ := h.keeps j r hr
  exact ⟨r', List.mem_filter.mpr ⟨hr', hs' hs⟩, hk⟩

theorem pageLimit_pos : 0 < pageLimit limit := by
  simp [pageLimit]

end History

end Scheduler.ListKind

namespace Scheduler

namespace Sample

instance encodableChar : Encodable Char :=
  .ofLeftInverse Char.toNat Char.ofNat Char.ofNat_toNat

instance encodableString : Encodable String :=
  .ofLeftInverse String.toList String.ofList fun _ => String.ofList_toList

deriving instance Encodable for ApiCursorKind, TimeCursor, IdCursor, AttemptCursor, BatchCursor,
  BatchItemCursor, Cursor

def numbered (n : Nat) : String :=
  String.ofList (Nat.toDigits 10 n)

def number (text : String) : Nat :=
  Nat.ofDigitChars 10 text.toList 0

theorem number_numbered (n : Nat) : number (numbered n) = n := by
  rw [number, numbered, String.toList_ofList, Nat.ofDigitChars_ten_toDigits]

-- Cursors are written as their numbers.
def numbering : CursorRuntime where
  uuidText          := numbered
  parseUuid text    := some (number text)
  parse_uuidText id := congrArg some (number_numbered id)
  write cursor      := numbered (Encodable.encode cursor)
  read text         := (Encodable.decode (α := Cursor) (number text)).map (·.json numbered)
  read_write cursor := by simp [number_numbered]

-- A table of one run that does not change.
def scheduledOnce (t : Instant) : ListKind.History numbering .runs where
  table _    := [⟨1, t, newYear 2026, newYear 2026⟩]
  unique _   := List.nodup_singleton _
  keeps _ r h := ⟨r, h, rfl, id⟩

end Sample

namespace ListKind

open Sample Paging

-- A run in the distant future keeps the whole list from being shown.

end ListKind

end Scheduler
