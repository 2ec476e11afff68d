import TaskScheduler.Library.Digits
import TaskScheduler.Library.Paging
import TaskScheduler.Ingestion.Static
import TaskScheduler.Ingestion.Workers

namespace Scheduler.StaticCollection

open Paging

-- The values of `usize`.
def usizeLimit : Nat := 2 ^ 64

def offsetLabel : List Char := ['o', 'f', 'f', 's', 'e', 't', ':']

def offsetCursor (offset : Nat) : String :=
  String.ofList (offsetLabel ++ Nat.toDigits 10 offset)

def parseOffset (cursor : String) : Option Nat :=
  if cursor.toList.take 7 = offsetLabel then Digits.parse usizeLimit (cursor.toList.drop 7)
  else none

-- `hex::encode`
def hexEncode (bytes : List UInt8) : List Char :=
  bytes.flatMap fun b => [Nat.digitChar (b.toNat / 16), Nat.digitChar (b.toNat % 16)]

-- The libraries that a page is made with.
structure Runtime where
  reader        : JsonReader
  decodeUtf8    : List UInt8 → Option (List Char)
  print         : Json → RawItem
  sha256        : List UInt8 → List UInt8
  length_sha256 : ∀ bytes, (sha256 bytes).length = 32

namespace Runtime

variable (rt : Runtime)

def snapshotId (bytes : List UInt8) : String :=
  String.ofList (hexEncode (rt.sha256 bytes))

def parse (bytes : List UInt8) : Except String (List Json) :=
  parseStaticCollection rt.reader (rt.decodeUtf8 bytes)

def offsetOf : (cursor : Option String) → Except String Nat
  | none        => .ok 0
  | some cursor => (parseOffset cursor).elim (.error "collection_cursor_invalid") .ok

def staticPage (bytes : List UInt8) (cursor expectedSnapshot : Option String) (pageSize : Nat) :
    Except String SourcePage :=
  let snapshotId := rt.snapshotId bytes
  if expectedSnapshot.any (· ≠ snapshotId) then
    .error "collection_snapshot_drift"
  else do
    let values ← rt.parse bytes
    let offset ← offsetOf cursor
    if values.length < offset then
      .error "collection_cursor_invalid"
    else
      let stop := min (min (offset + pageSize) (usizeLimit - 1)) values.length
      let nextCursor := if stop < values.length then some (offsetCursor stop) else none
      let items := ((values.take stop).drop offset).map rt.print
      validateSourcePage { snapshotId, items, nextCursor } cursor expectedSnapshot pageSize
        |>.mapError (·.code)

-- A page is requested with the cursor and the snapshot of the page before it.
def fetch (bytes : List UInt8) (pageSize : Nat) (request : Option (String × String)) :
    Except String (Page RawItem (String × String)) :=
  rt.staticPage bytes (request.map (·.1)) (request.map (·.2)) pageSize |>.map fun page =>
    ⟨page.items, page.nextCursor.map (·, page.snapshotId)⟩

end Runtime

theorem parseOffset_offsetCursor {n : Nat} (h : n < usizeLimit) :
    parseOffset (offsetCursor n) = some n := by
  have ht : (offsetCursor n).toList = offsetLabel ++ Nat.toDigits 10 n := String.toList_ofList
  have hl : offsetLabel.length = 7 := rfl
  rw [parseOffset, ht, List.take_left' hl, List.drop_left' hl, if_pos rfl, Digits.parse_toDigits h]

theorem utf8Len_le (text : List Char) : String.utf8Len text ≤ 4 * text.length := by
  induction text
  case nil => simp
  case cons c text hi =>
    have hc := c.utf8Size_le_four
    simp only [String.utf8Len_cons, List.length_cons]
    omega

theorem length_hexEncode {bytes : List UInt8} : (hexEncode bytes).length = 2 * bytes.length := by
  induction bytes
  case nil => rfl
  case cons b bytes hi =>
    rw [hexEncode, List.flatMap_cons, List.length_append]
    rw [hexEncode] at hi
    rw [hi, List.length_cons, List.length_cons, List.length_cons, List.length_nil]
    omega

theorem hexEncode_inj {bytes bytes' : List UInt8} (h : hexEncode bytes = hexEncode bytes') :
    bytes = bytes' := by
  induction bytes generalizing bytes'
  case nil =>
    cases bytes'
    case nil => rfl
    case cons => simp [hexEncode] at h
  case cons b bytes hi =>
    cases bytes'
    case nil => simp [hexEncode] at h
    case cons b' bytes' =>
      have hinj : ∀ m < 16, ∀ n < 16, Nat.digitChar m = Nat.digitChar n → m = n := by decide
      have h : Nat.digitChar (b.toNat / 16) :: Nat.digitChar (b.toNat % 16) :: hexEncode bytes =
          Nat.digitChar (b'.toNat / 16) :: Nat.digitChar (b'.toNat % 16) :: hexEncode bytes' := h
      injection h with h₁ h
      injection h with h₂ h
      have hb := b.toNat_lt
      have hb' := b'.toNat_lt
      have h₁ := hinj _ (by omega) _ (by omega) h₁
      have h₂ := hinj _ (by omega) _ (by omega) h₂
      rw [hi h, UInt8.toNat_inj.mp (by omega : b.toNat = b'.toNat)]

theorem offsetCursor_inj {m n : Nat} (hm : m < usizeLimit) (hn : n < usizeLimit)
    (h : offsetCursor m = offsetCursor n) : m = n := by
  have hp := parseOffset_offsetCursor hm
  rw [h, parseOffset_offsetCursor hn] at hp
  exact (Option.some.inj hp).symm

theorem offsetCursor_ne_empty {n : Nat} : offsetCursor n ≠ "" := by
  intro he
  have he := congrArg String.toList he
  rw [offsetCursor, String.toList_ofList] at he
  exact Nat.toDigits_ne_nil (List.append_eq_nil_iff.mp he).right

theorem utf8ByteSize_offsetCursor_le {n : Nat} (h : n < usizeLimit) :
    (offsetCursor n).utf8ByteSize ≤ maxCursorBytes := by
  have hd : (Nat.toDigits 10 n).length ≤ 20 :=
    (Nat.length_toDigits_le_iff (by decide) (by decide)).mpr <| h.trans (by norm_num [usizeLimit])
  have hl := utf8Len_le (offsetLabel ++ Nat.toDigits 10 n)
  have h7 : offsetLabel.length = 7 := rfl
  rw [List.length_append, h7] at hl
  rw [offsetCursor, String.utf8ByteSize_ofList, maxCursorBytes]
  omega

theorem validateSourcePage_eq_ok {page : SourcePage} {cursor snapshot : Option String}
    {pageSize : Nat}
    (hs : page.snapshotId ≠ "" ∧ page.snapshotId.utf8ByteSize ≤ maxSnapshotIdBytes)
    (he : snapshot.any (· ≠ page.snapshotId) = false) (hl : page.items.length ≤ pageSize)
    (hn : ∀ next ∈ page.nextCursor, next ≠ "" ∧ next.utf8ByteSize ≤ maxCursorBytes ∧
      cursor ≠ some next ∧ page.items ≠ []) :
    validateSourcePage page cursor snapshot pageSize = .ok page := by
  rw [validateSourcePage, if_neg (by simp [hs.left, hs.right]), if_neg (Bool.eq_false_iff.mp he),
    if_neg hl.not_gt]
  cases hc : page.nextCursor
  case none => rfl
  case some next =>
    have ⟨h₁, h₂, h₃, h₄⟩ := hn next hc
    simp [h₁, h₂, h₃, h₄]

namespace Runtime

variable {rt : Runtime} {bytes bytes' : List UInt8} {values : List Json} {pageSize offset : Nat}

theorem snapshotId_bounds :
    rt.snapshotId bytes ≠ "" ∧ (rt.snapshotId bytes).utf8ByteSize ≤ maxSnapshotIdBytes := by
  have hl : (hexEncode (rt.sha256 bytes)).length = 64 := by
    rw [length_hexEncode, rt.length_sha256]
  constructor
  case left =>
    intro he
    have he := congrArg String.toList he
    rw [snapshotId, String.toList_ofList] at he
    simp [he] at hl
  case right =>
    have hu := utf8Len_le (hexEncode (rt.sha256 bytes))
    rw [snapshotId, String.utf8ByteSize_ofList, maxSnapshotIdBytes]
    omega

theorem snapshotId_inj (h : rt.snapshotId bytes' = rt.snapshotId bytes) :
    rt.sha256 bytes' = rt.sha256 bytes :=
  hexEncode_inj <| String.ofList_injective h

-- The request for the page that begins at an offset.
def Requests (rt : Runtime) (bytes : List UInt8) (offset : Nat)
    (request : Option (String × String)) : Prop :=
  request = none ∧ offset = 0 ∨ request = some (offsetCursor offset, rt.snapshotId bytes)

section Walk

variable (hp : rt.parse bytes = .ok values) (hn : values.length < usizeLimit) (hk : 1 ≤ pageSize)

include hp hn hk

theorem fetch_ok {request : Option (String × String)} (hr : rt.Requests bytes offset request)
    (ho : offset ≤ values.length) : rt.fetch bytes pageSize request = .ok {
      items := ((values.drop offset).take pageSize).map rt.print
      next  :=
        if offset + pageSize < values.length then
          some (offsetCursor (offset + pageSize), rt.snapshotId bytes)
        else
          none
    } := by
  have hsnap : (request.map (·.2)).any (· ≠ rt.snapshotId bytes) = false := by
    rcases hr with ⟨rfl, _⟩ | rfl <;> simp
  have hoff : offsetOf (request.map (·.1)) = .ok offset := by
    rcases hr with ⟨rfl, rfl⟩ | rfl
    case inl => rfl
    case inr => simp [offsetOf, parseOffset_offsetCursor (show offset < usizeLimit by omega)]
  have hstop : min (min (offset + pageSize) (usizeLimit - 1)) values.length =
      min (offset + pageSize) values.length := by omega
  have hslice : (values.take (min (offset + pageSize) values.length)).drop offset =
      (values.drop offset).take pageSize := by
    rw [List.drop_take, List.take_eq_take_iff, List.length_drop]
    omega
  have hvalid {next : Option String}
      (hnext : next = if offset + pageSize < values.length then
        some (offsetCursor (offset + pageSize)) else none) :
      let page : SourcePage := ⟨rt.snapshotId bytes,
        ((values.drop offset).take pageSize).map rt.print, next⟩
      validateSourcePage page (request.map (·.1)) (request.map (·.2)) pageSize = .ok page := by
    refine validateSourcePage_eq_ok snapshotId_bounds hsnap (by simp) ?_
    intro cursor hc
    rw [hnext] at hc
    split at hc
    case isFalse => contradiction
    case isTrue hlt =>
      cases hc
      refine ⟨offsetCursor_ne_empty, utf8ByteSize_offsetCursor_le (by omega), ?_, ?_⟩
      case refine_1 =>
        rcases hr with ⟨rfl, _⟩ | rfl
        case inl => simp
        case inr =>
          intro he
          have he := offsetCursor_inj (by omega) (by omega) (Option.some.inj he)
          omega
      case refine_2 =>
        refine List.ne_nil_of_length_pos ?_
        rw [List.length_map, List.length_take, List.length_drop]
        omega
  have hnext : (if min (offset + pageSize) values.length < values.length then
      some (offsetCursor (min (offset + pageSize) values.length)) else none) =
      if offset + pageSize < values.length then some (offsetCursor (offset + pageSize))
      else none := by
    by_cases hlt : offset + pageSize < values.length
    case pos => rw [min_eq_left hlt.le]
    case neg => rw [if_neg hlt, if_neg (by omega)]
  simp only [fetch, staticPage, hsnap, hp, hoff, bind, Except.bind, hstop, hslice, hnext,
    if_neg ho.not_gt, hvalid rfl, Except.mapError, Except.map, Bool.false_eq_true, if_false]
  split <;> rfl

-- The number of pages, with one for no items.
def pageCount (items pageSize : Nat) : Nat :=
  max 1 ((items + pageSize - 1) / pageSize)

omit hp hn in
theorem pageCount_succ {n : Nat} (h : pageSize < n) :
    pageCount n pageSize = pageCount (n - pageSize) pageSize + 1 := by
  have hd : (n + pageSize - 1) / pageSize = (n - pageSize + pageSize - 1) / pageSize + 1 := by
    rw [← Nat.add_div_right _ hk]
    congr 1
    omega
  have hle : 1 ≤ (n - pageSize + pageSize - 1) / pageSize :=
    (Nat.one_le_div_iff hk).mpr (by omega)
  rw [pageCount, pageCount, hd]
  omega

omit hp hn in
theorem pageCount_eq_one {n : Nat} (h : n ≤ pageSize) : pageCount n pageSize = 1 := by
  have hlt : (n + pageSize - 1) / pageSize < 2 := Nat.div_lt_of_lt_mul (by omega)
  rw [pageCount]
  omega

-- By induction on what is left after the offset.
theorem exists_walk {request : Option (String × String)} {i : Nat}
    (hr : rt.Requests bytes offset request) (ho : offset ≤ values.length) :
    ∃ pages, Walk (fun _ => rt.fetch bytes pageSize) i request pages ∧ IsComplete pages ∧
      items pages = (values.drop offset).map rt.print ∧
      pages.length = pageCount (values.length - offset) pageSize ∧
      ∀ page ∈ pages, ∀ request ∈ page.next, request.2 = rt.snapshotId bytes := by
  generalize hm : values.length - offset = m
  induction m using Nat.strong_induction_on generalizing offset request i
  case _ m ih =>
    have hf := fetch_ok hp hn hk hr ho
    by_cases hlt : offset + pageSize < values.length
    case pos =>
      rw [if_pos hlt] at hf
      have ⟨pages, w, hc, hi, hl, hs⟩ := ih (values.length - (offset + pageSize)) (by omega)
        (i := i + 1) (.inr rfl) hlt.le rfl
      refine ⟨_ :: pages, .next hf rfl w, (isComplete_cons rfl).mpr hc, ?_, ?_, ?_⟩
      case refine_1 =>
        have hd : values.drop offset =
            (values.drop offset).take pageSize ++ values.drop (offset + pageSize) := by
          rw [← List.drop_drop, List.take_append_drop]
        rw [items, List.flatMap_cons, ← items, hi, ← List.map_append, ← hd]
      case refine_2 =>
        rw [List.length_cons, hl, pageCount_succ hk (n := m) (by omega)]
        congr 2
        omega
      case refine_3 =>
        refine List.forall_mem_cons.mpr ⟨fun request hr => ?_, hs⟩
        rw [← Option.some.inj hr]
    case neg =>
      rw [if_neg hlt] at hf
      refine ⟨[_], .last hf rfl, isComplete_singleton.mpr rfl, ?_, ?_, ?_⟩
      case refine_1 =>
        rw [List.take_of_length_le (by rw [List.length_drop]; omega)]
        simp [items]
      case refine_2 =>
        rw [pageCount_eq_one hk (by omega)]
        rfl
      case refine_3 => simp

end Walk

-- The digest of other bytes is not the expected one.
theorem fetch_drift {request : String × String} (hs : request.2 = rt.snapshotId bytes)
    (hb : rt.sha256 bytes' ≠ rt.sha256 bytes) :
    rt.fetch bytes' pageSize (some request) = .error "collection_snapshot_drift" := by
  have hd : (some request.2).any (· ≠ rt.snapshotId bytes') := by
    simpa [hs] using fun he => hb <| snapshotId_inj he.symm
  simp only [fetch, staticPage, Option.map_some, if_pos hd]
  rfl

-- Each walk from the beginning that is followed to its end is the same one.
theorem static_paging_partitions (hp : rt.parse bytes = .ok values)
    (hn : values.length < usizeLimit) (hk : 1 ≤ pageSize) : ∃ pages,
    (∀ pages', Walk (fun _ => rt.fetch bytes pageSize) 0 none pages' ∧ IsComplete pages' ↔
      pages' = pages) ∧
    items pages = values.map rt.print ∧ pages.length = pageCount values.length pageSize ∧
    ∀ page ∈ pages, ∀ request ∈ page.next, ∀ bytes', rt.sha256 bytes' ≠ rt.sha256 bytes →
      rt.fetch bytes' pageSize (some request) = .error "collection_snapshot_drift" := by
  have ⟨pages, w, hc, hi, hl, hs⟩ := exists_walk hp hn hk (i := 0) (.inl ⟨rfl, rfl⟩) (Nat.zero_le _)
  refine ⟨pages, fun pages' => ⟨fun ⟨w', hc'⟩ => ?_, ?_⟩, hi, hl, ?_⟩
  case refine_1 => exact w.unique w' hc hc'
  case refine_2 =>
    rintro rfl
    exact ⟨w, hc⟩
  case refine_3 => exact fun page hp request hr bytes' hb => fetch_drift (hs page hp request hr) hb

end Runtime

end Scheduler.StaticCollection

namespace Scheduler

namespace Sample

def ascii : StaticCollection.Runtime where
  reader          := braces
  decodeUtf8 text := some <| text.map fun b => Char.ofNat b.toNat
  print _         := "\x7b\x7d"
  sha256 bytes    := List.replicate 32 (.ofNat bytes.length)
  length_sha256 _ := List.length_replicate

def twoObjectBytes : List UInt8 := [123, 125, 10, 10, 123, 125, 10]

end Sample

namespace StaticCollection

open Sample Paging

theorem static_paging_partitions_two : ∃ pages,
    Walk (fun _ => ascii.fetch twoObjectBytes 1) 0 none pages ∧ IsComplete pages ∧
    pages.length = 2 := by
  have hp : ascii.parse twoObjectBytes = .ok [.object [], .object []] := by rfl
  have ⟨pages, hw, _, hl, _⟩ :=
    Runtime.static_paging_partitions hp (by norm_num [usizeLimit]) (show 1 ≤ 1 by decide)
  have ⟨w, hc⟩ := (hw pages).mpr rfl
  exact ⟨pages, w, hc, hl⟩

end StaticCollection

end Scheduler
