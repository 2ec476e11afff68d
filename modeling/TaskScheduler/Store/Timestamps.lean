import TaskScheduler.Library.Digits

namespace Scheduler

def isLeapYear (year : Int) : Bool :=
  year % 4 = 0 && (year % 100 ≠ 0 || year % 400 = 0)

def daysInMonth (year : Int) (month : Nat) : Nat :=
  if month = 2 then
    if isLeapYear year then 29 else 28
  else if month = 4 ∨ month = 6 ∨ month = 9 ∨ month = 11 then 30
  else 31

-- `DateTime<Utc>`: a date of the Gregorian calendar, a second of the day, and nanoseconds. A leap
-- second is kept as nanoseconds beyond the last second of a minute.
@[ext]
structure Instant where
  year   : Int
  month  : Nat
  day    : Nat
  second : Nat
  nano   : Nat
  date   : 1 ≤ month ∧ month ≤ 12 ∧ 1 ≤ day ∧ day ≤ daysInMonth year month
  time   : second < 86400 ∧ nano < 2 * 10 ^ 9 ∧ (10 ^ 9 ≤ nano → second % 60 = 59)
  deriving DecidableEq

namespace Instant

-- The order of `DateTime<Utc>`.
def Before (t u : Instant) : Prop :=
  t.year < u.year ∨ t.year = u.year ∧ (t.month < u.month ∨ t.month = u.month ∧
    (t.day < u.day ∨ t.day = u.day ∧ (t.second < u.second ∨ t.second = u.second ∧ t.nano < u.nano)))

instance (t u : Instant) : Decidable (t.Before u) :=
  inferInstanceAs (Decidable (_ ∨ _))

-- Without the part of a millisecond.
def truncated (t : Instant) : Instant where
  year   := t.year
  month  := t.month
  day    := t.day
  second := t.second
  nano   := t.nano / 10 ^ 6 * 10 ^ 6
  date   := t.date
  time   := by
    have ⟨hs, hn, hl⟩ := t.time
    refine ⟨hs, by omega, fun h => hl (by omega)⟩

-- The years of four digits.
def InRange (t : Instant) : Prop :=
  0 ≤ t.year ∧ t.year ≤ 9999

instance (t : Instant) : Decidable t.InRange :=
  inferInstanceAs (Decidable (_ ∧ _))

end Instant

namespace Timestamp

-- Other years have a sign and at least four digits.
def writeYear (year : Int) : List Char :=
  if 0 ≤ year ∧ year ≤ 9999 then
    Digits.write 4 year.toNat
  else
    (if year < 0 then '-' else '+') :: (Nat.toDigits 10 year.natAbs).leftpad 4 '0'

-- The characters after the year.
def writeRest (t : Instant) : List Char :=
  let isLeap := 10 ^ 9 ≤ t.nano
  '-' :: (Digits.write 2 t.month ++ '-' :: (Digits.write 2 t.day ++
    'T' :: (Digits.write 2 (t.second / 3600) ++ ':' :: (Digits.write 2 (t.second / 60 % 60) ++
      ':' :: (Digits.write 2 (t.second % 60 + if isLeap then 1 else 0) ++
        '.' :: (Digits.write 3 (t.nano % 10 ^ 9 / 10 ^ 6) ++ ['Z']))))))

def formatTime (t : Instant) : String :=
  String.ofList (writeYear t.year ++ writeRest t)

def expect (allowed : List Char) : List Char → Option (List Char)
  | c :: rest => if c ∈ allowed then some rest else none
  | []        => none

-- Digits after the ninth are skipped.
def readFraction : (text : List Char) → Option (Nat × List Char)
  | '.' :: text =>
    let digits := text.takeWhile Char.isDigit
    if digits = [] then none
    else some (Digits.value (digits.take 9) * 10 ^ (9 - digits.length), text.dropWhile Char.isDigit)
  | text => some (0, text)

-- The sixtieth second is a leap second.
def ofFields (year month day hour minute second nano : Nat) : Option Instant :=
  let nano := if second = 60 then 10 ^ 9 + nano else nano
  let second := 3600 * hour + 60 * minute + if second = 60 then 59 else second
  if h : hour < 24 ∧ minute < 60 ∧ (1 ≤ month ∧ month ≤ 12 ∧ 1 ≤ day ∧
      day ≤ daysInMonth year month) ∧ second < 86400 ∧ nano < 2 * 10 ^ 9 ∧
      (10 ^ 9 ≤ nano → second % 60 = 59) then
    some { year, month, day, second, nano, date := h.2.2.1, time := h.2.2.2 }
  else
    none

-- `DateTime::parse_from_rfc3339`, for texts in universal time as they are in the store.
def parseTime (text : String) : Option Instant := do
  let (year, text) ← Digits.read 4 text.toList
  let text ← expect ['-'] text
  let (month, text) ← Digits.read 2 text
  let text ← expect ['-'] text
  let (day, text) ← Digits.read 2 text
  let text ← expect ['T', 't', ' '] text
  let (hour, text) ← Digits.read 2 text
  let text ← expect [':'] text
  let (minute, text) ← Digits.read 2 text
  let text ← expect [':'] text
  let (second, text) ← Digits.read 2 text
  let (nano, text) ← readFraction text
  let text ← expect ['Z', 'z'] text
  if text = [] then ofFields year month day hour minute second nano else none

end Timestamp

-- The time columns of a run.
structure RunTimes (τ : Type) where
  scheduledAt : τ
  createdAt   : τ
  updatedAt   : τ
  notBefore   : τ
  deriving DecidableEq

namespace RunTimes

variable {α β : Type}

def map (f : α → β) (r : RunTimes α) : RunTimes β :=
  ⟨f r.scheduledAt, f r.createdAt, f r.updatedAt, f r.notBefore⟩

def All (p : α → Prop) (r : RunTimes α) : Prop :=
  p r.scheduledAt ∧ p r.createdAt ∧ p r.updatedAt ∧ p r.notBefore

-- What `run_record_from_row` makes of the columns.
def parse (r : RunTimes String) : Option (RunTimes Instant) := do
  return ⟨← Timestamp.parseTime r.scheduledAt, ← Timestamp.parseTime r.createdAt,
    ← Timestamp.parseTime r.updatedAt, ← Timestamp.parseTime r.notBefore⟩

end RunTimes

-- What the times do to `queued_runs`, on the rows that the other conditions of the query leave. One
-- row that does not parse fails the call.
def Timestamp.queuedRuns (rows : List (RunTimes String)) (now : Instant) :
    Option (List (RunTimes Instant)) :=
  (rows.filter fun r => r.notBefore ≤ Timestamp.formatTime now).mapM RunTimes.parse

namespace Timestamp

variable {t u : Instant}

theorem read_of_not_isDigit {c : Char} {rest : List Char} {width : Nat} (h : ¬c.isDigit) :
    Digits.read (width + 1) (c :: rest) = none := by
  rw [Digits.read, if_neg]
  simp [h]

theorem readFraction_write {n : Nat} (h : n < 1000) :
    readFraction ('.' :: (Digits.write 3 n ++ ['Z'])) = some (n * 10 ^ 6, ['Z']) := by
  have hd : ∀ c ∈ Digits.write 3 n, c.isDigit := List.all_eq_true.mp Digits.isDigit_write
  have ht : (Digits.write 3 n ++ ['Z']).takeWhile Char.isDigit = Digits.write 3 n := by
    rw [List.takeWhile_append_of_pos hd]
    simp
  have hw : (Digits.write 3 n ++ ['Z']).dropWhile Char.isDigit = ['Z'] := by
    rw [List.dropWhile_append_of_pos hd]
    rfl
  have hn : Digits.write 3 n ≠ [] := List.ne_nil_of_length_pos (by simp)
  have hl : (Digits.write 3 n).take 9 = Digits.write 3 n := List.take_of_length_le (by simp)
  simp only [readFraction, ht, hw, if_neg hn, hl, Digits.length_write,
    Digits.value_write (show n < 10 ^ 3 from h)]

theorem daysInMonth_le {year : Int} {month : Nat} : daysInMonth year month ≤ 31 := by
  unfold daysInMonth
  split_ifs <;> decide

theorem expect_cons {c : Char} {allowed rest : List Char} :
    expect (c :: allowed) (c :: rest) = some rest := by
  simp [expect]

theorem parse_format (h : t.InRange) : parseTime (formatTime t) = some t.truncated := by
  have ⟨hy, hy'⟩ := h
  have ⟨hm, hm', hd, hd'⟩ := t.date
  have ⟨hs, hn, hl⟩ := t.time
  have hdays : daysInMonth t.year t.month ≤ 31 := daysInMonth_le
  have hf : ofFields t.year.toNat t.month t.day (t.second / 3600) (t.second / 60 % 60)
      (t.second % 60 + if 10 ^ 9 ≤ t.nano then 1 else 0) (t.nano % 10 ^ 9 / 10 ^ 6 * 10 ^ 6) =
        some t.truncated := by
    have hdate : 1 ≤ t.month ∧ t.month ≤ 12 ∧ 1 ≤ t.day ∧
        t.day ≤ daysInMonth t.year.toNat t.month := by
      rw [Int.toNat_of_nonneg hy]
      exact t.date
    have hsecond : 3600 * (t.second / 3600) + 60 * (t.second / 60 % 60) + t.second % 60 =
        t.second := by omega
    by_cases hle : 10 ^ 9 ≤ t.nano
    case pos =>
      have h60 : t.second % 60 + 1 = 60 := by rw [hl hle]
      simp only [ofFields, if_pos hle, h60, if_true]
      rw [dif_pos ⟨by omega, by omega, hdate, by omega, by omega, fun _ => by omega⟩]
      refine congrArg some <| Instant.ext (Int.toNat_of_nonneg hy) rfl rfl ?_ ?_
      case refine_1 =>
        change 3600 * (t.second / 3600) + 60 * (t.second / 60 % 60) + 59 = t.second
        omega
      case refine_2 =>
        change 10 ^ 9 + t.nano % 10 ^ 9 / 10 ^ 6 * 10 ^ 6 = t.nano / 10 ^ 6 * 10 ^ 6
        omega
    case neg =>
      have h60 : t.second % 60 + 0 ≠ 60 := by omega
      simp only [ofFields, if_neg hle, if_neg h60]
      rw [dif_pos ⟨by omega, by omega, hdate, by omega, by omega, fun _ => by omega⟩]
      refine congrArg some <| Instant.ext (Int.toNat_of_nonneg hy) rfl rfl ?_ ?_
      case refine_1 => exact hsecond
      case refine_2 =>
        change t.nano % 10 ^ 9 / 10 ^ 6 * 10 ^ 6 = t.nano / 10 ^ 6 * 10 ^ 6
        omega
  have hsec : (t.second % 60 + if 10 ^ 9 ≤ t.nano then 1 else 0) < 10 ^ 2 := by
    split <;> omega
  rw [parseTime, formatTime, String.toList_ofList, writeYear, if_pos ⟨hy, hy'⟩, writeRest]
  -- Each field is read back, and so is the mark after it.
  refine Option.bind_eq_some_iff.mpr ⟨_, Digits.read_write (by omega), ?_⟩
  refine Option.bind_eq_some_iff.mpr ⟨_, expect_cons, ?_⟩
  refine Option.bind_eq_some_iff.mpr ⟨_, Digits.read_write (by omega), ?_⟩
  refine Option.bind_eq_some_iff.mpr ⟨_, expect_cons, ?_⟩
  refine Option.bind_eq_some_iff.mpr ⟨_, Digits.read_write (by omega), ?_⟩
  refine Option.bind_eq_some_iff.mpr ⟨_, expect_cons, ?_⟩
  refine Option.bind_eq_some_iff.mpr ⟨_, Digits.read_write (by omega), ?_⟩
  refine Option.bind_eq_some_iff.mpr ⟨_, expect_cons, ?_⟩
  refine Option.bind_eq_some_iff.mpr ⟨_, Digits.read_write (by omega), ?_⟩
  refine Option.bind_eq_some_iff.mpr ⟨_, expect_cons, ?_⟩
  refine Option.bind_eq_some_iff.mpr ⟨_, Digits.read_write hsec, ?_⟩
  refine Option.bind_eq_some_iff.mpr ⟨_, readFraction_write (by omega), ?_⟩
  refine Option.bind_eq_some_iff.mpr ⟨_, expect_cons, ?_⟩
  exact hf

theorem exists_writeYear (h : ¬t.InRange) :
    ∃ c digits, ¬c.isDigit ∧ (∀ d : Char, d.isDigit → c < d) ∧ writeYear t.year = c :: digits := by
  have hlt {c : Char} (hc : c.toNat < 48) (d : Char) (hd : d.isDigit) : c < d := by
    have h0 : 48 ≤ d.toNat := (Char.isDigit_iff_toNat.mp hd).1
    exact UInt32.lt_iff_toNat_lt.mpr (hc.trans_le h0)
  rw [writeYear, if_neg (show ¬(0 ≤ t.year ∧ t.year ≤ 9999) from h)]
  split
  case isTrue => exact ⟨_, _, by decide, hlt (by decide), rfl⟩
  case isFalse => exact ⟨_, _, by decide, hlt (by decide), rfl⟩

theorem parse_format_eq_none (h : ¬t.InRange) : parseTime (formatTime t) = none := by
  have ⟨c, digits, hc, _, hw⟩ := exists_writeYear h
  rw [parseTime, formatTime, String.toList_ofList, hw, List.cons_append, read_of_not_isDigit hc]
  rfl

-- The time of day, in units that leave room for leap seconds.
theorem writeRest_lt : writeRest t < writeRest u ↔ t.month < u.month ∨ t.month = u.month ∧
    (t.day < u.day ∨ t.day = u.day ∧ (t.second < u.second ∨ t.second = u.second ∧
      t.nano / 10 ^ 6 < u.nano / 10 ^ 6)) := by
  have ⟨hm, hm', hd, hd'⟩ := t.date
  have ⟨hn, hn', he, he'⟩ := u.date
  have hdt : daysInMonth t.year t.month ≤ 31 := daysInMonth_le
  have hdu : daysInMonth u.year u.month ≤ 31 := daysInMonth_le
  have ⟨hs, hf, hl⟩ := t.time
  have ⟨hs', hf', hl'⟩ := u.time
  have hst : (t.second % 60 + if 10 ^ 9 ≤ t.nano then 1 else 0) < 10 ^ 2 := by split <;> omega
  have hsu : (u.second % 60 + if 10 ^ 9 ≤ u.nano then 1 else 0) < 10 ^ 2 := by split <;> omega
  rw [writeRest, writeRest, Digits.cons_write_append_lt (by omega) (by omega),
    Digits.cons_write_append_lt (by omega) (by omega),
    Digits.cons_write_append_lt (by omega) (by omega),
    Digits.cons_write_append_lt (by omega) (by omega), Digits.cons_write_append_lt hst hsu,
    Digits.cons_write_append_lt (by omega) (by omega)]
  simp only [lt_irrefl, and_false, or_false]
  refine or_congr_right <| and_congr_right fun _ => or_congr_right <| and_congr_right fun _ => ?_
  split_ifs <;> omega

-- The fields are compared from left to right. A leap second comes after the second before it.
theorem format_lt (ht : t.InRange) (hu : u.InRange) :
    formatTime t < formatTime u ↔ t.truncated.Before u.truncated := by
  have ⟨hy, hy'⟩ := ht
  have ⟨hz, hz'⟩ := hu
  have hn : t.nano / 10 ^ 6 < u.nano / 10 ^ 6 ↔
      t.nano / 10 ^ 6 * 10 ^ 6 < u.nano / 10 ^ 6 * 10 ^ 6 := by omega
  have hl : t.year.toNat < u.year.toNat ↔ t.year < u.year := by omega
  have he : t.year.toNat = u.year.toNat ↔ t.year = u.year := by omega
  rw [String.lt_iff_toList_lt, formatTime, formatTime, String.toList_ofList, String.toList_ofList,
    writeYear, writeYear, if_pos ⟨hy, hy'⟩, if_pos ⟨hz, hz'⟩,
    Digits.write_append_lt (by omega) (by omega), writeRest_lt, hn, hl, he]
  rfl

-- A year with a sign is before the years of four digits.
theorem format_lt_of_not_inRange (ht : ¬t.InRange) (hu : u.InRange) :
    formatTime t < formatTime u := by
  have ⟨c, digits, _, hc, hw⟩ := exists_writeYear ht
  have ⟨d, digits', hd, hw'⟩ : ∃ d digits', d.isDigit ∧ writeYear u.year = d :: digits' := by
    rw [writeYear, if_pos (show 0 ≤ u.year ∧ u.year ≤ 9999 from hu)]
    have ha : ∀ c ∈ Digits.write 4 u.year.toNat, c.isDigit :=
      List.all_eq_true.mp Digits.isDigit_write
    have hl : (Digits.write 4 u.year.toNat).length = 4 := Digits.length_write
    cases hw : Digits.write 4 u.year.toNat
    case nil => simp [hw] at hl
    case cons d digits' =>
      rw [hw] at ha
      exact ⟨d, digits', ha d List.mem_cons_self, rfl⟩
  rw [String.lt_iff_toList_lt, formatTime, formatTime, String.toList_ofList, String.toList_ofList,
    hw, hw', List.cons_append, List.cons_append, List.cons_lt_cons_iff]
  exact .inl (hc d hd)

theorem parse_format_isSome : (parseTime (formatTime t)).isSome ↔ t.InRange := by
  by_cases h : t.InRange
  case pos => simp [parse_format h, h]
  case neg => simp [parse_format_eq_none h, h]

variable {r : RunTimes Instant} {rows : List (RunTimes Instant)} {now : Instant}

theorem parse_row (h : r.All Instant.InRange) :
    (r.map formatTime).parse = some (r.map Instant.truncated) := by
  have ⟨h₁, h₂, h₃, h₄⟩ := h
  simp [RunTimes.parse, RunTimes.map, parse_format h₁, parse_format h₂, parse_format h₃,
    parse_format h₄]

theorem all_of_parse (h : (r.map formatTime).parse.isSome) : r.All Instant.InRange := by
  have ⟨r', h⟩ := Option.isSome_iff_exists.mp h
  simp only [RunTimes.parse, RunTimes.map, Option.bind_eq_bind, Option.bind_eq_some_iff] at h
  have ⟨_, h₁, _, h₂, _, h₃, _, h₄, _⟩ := h
  have hr {t t' : Instant} (h : parseTime (formatTime t) = some t') : t.InRange :=
    parse_format_isSome.mp (Option.isSome_of_eq_some h)
  exact ⟨hr h₁, hr h₂, hr h₃, hr h₄⟩

-- A row is selected if its time has come or cannot be compared.
theorem selected_iff (hn : now.InRange) : formatTime r.notBefore ≤ formatTime now ↔
    ¬(r.notBefore.InRange ∧ now.truncated.Before r.notBefore.truncated) := by
  rw [← not_lt, not_iff_not]
  constructor
  case mp =>
    intro h
    have hr : r.notBefore.InRange := by
      by_contra hr
      exact lt_asymm h (format_lt_of_not_inRange hr hn)
    exact ⟨hr, (format_lt hn hr).mp h⟩
  case mpr => exact fun ⟨hr, h⟩ => (format_lt hn hr).mpr h

theorem queuedRuns_eq : queuedRuns (rows.map (·.map formatTime)) now =
    (rows.filter fun r => formatTime r.notBefore ≤ formatTime now).mapM fun r =>
      (r.map formatTime).parse := by
  rw [queuedRuns, List.filter_map, List.mapM_map]
  rfl

theorem mapM_eq_some {α β : Type} {l : List α} {f : α → Option β} {g : α → β}
    (h : ∀ a ∈ l, f a = some (g a)) : l.mapM f = some (l.map g) := by
  induction l
  case nil => rfl
  case cons a l hi =>
    have ⟨ha, h⟩ := List.forall_mem_cons.mp h
    simp [List.mapM_cons, ha, hi h]

theorem isSome_of_mapM {α β : Type} {l : List α} {f : α → Option β} {bs : List β}
    (h : l.mapM f = some bs) {a : α} (ha : a ∈ l) : (f a).isSome := by
  induction l generalizing bs
  case nil => contradiction
  case cons b l hi =>
    simp only [List.mapM_cons, Option.bind_eq_bind, Option.bind_eq_some_iff] at h
    have ⟨c, hc, cs, hcs, _⟩ := h
    cases ha
    case head => exact Option.isSome_of_eq_some hc
    case tail ha => exact hi hcs ha

-- The time of the run has come.
def isDue (now : Instant) (r : RunTimes Instant) : Bool :=
  ¬now.truncated.Before r.notBefore.truncated

end Timestamp

namespace Sample

def newYear (year : Int) : Instant where
  year   := year
  month  := 1
  day    := 1
  second := 0
  nano   := 0
  date   := by simp [daysInMonth]
  time   := by decide

def scheduledFor (t : Instant) : RunTimes Instant :=
  ⟨t, newYear 2026, newYear 2026, t⟩

end Sample

namespace Timestamp

open Sample

-- The years after 9999 have a sign, which is before the digits.

end Timestamp

end Scheduler
