import TaskScheduler.Library.Chrono
import TaskScheduler.Blueprint.Acceptance
import TaskScheduler.Store.Attempts

namespace Scheduler

open Blueprints

structure Url where
  scheme  : String
  hasHost : Bool
  deriving DecidableEq, Repr

-- The libraries for time zones and for URLs.
structure SettingsRuntime where
  isTimezone : String → Bool
  parseUrl   : String → Option Url

structure GlobalSettings where
  revision              : Int64 := 1
  defaultTimezone       : String := "UTC"
  defaultMaxAttempts    : UInt32 := 3
  defaultTimeoutSeconds : UInt64 := 3600
  leaseSeconds          : UInt64 := 60
  heartbeatSeconds      : UInt64 := 10
  auditRetentionDays    : UInt32 := 90
  otlpEndpoint          : Option String := none
  deriving DecidableEq, Repr

namespace GlobalSettings

def validate (settings : GlobalSettings) (rt : SettingsRuntime) : Except String Unit :=
  if !rt.isTimezone settings.defaultTimezone then
    .error "default_timezone must be a valid IANA timezone"
  else if settings.defaultMaxAttempts = 0 then
    .error "default_max_attempts must be at least one"
  else if settings.defaultTimeoutSeconds = 0 then
    .error "default_timeout_seconds must be at least one"
  else if settings.heartbeatSeconds < 5 then
    .error "heartbeat_seconds must be at least five"
  else if settings.leaseSeconds < Chrono.saturatingMul settings.heartbeatSeconds 3 then
    .error "lease_seconds must be at least three times heartbeat_seconds"
  else if settings.auditRetentionDays = 0 then
    .error "audit_retention_days must be at least one"
  else
    match settings.otlpEndpoint with
    | none          => .ok ()
    | some endpoint =>
      match rt.parseUrl endpoint with
      | none     => .error "otlp_endpoint must be a valid URL"
      | some url =>
        if (url.scheme ≠ "http" ∧ url.scheme ≠ "https") ∨ !url.hasHost then
          .error "otlp_endpoint must be an absolute http(s) URL"
        else
          .ok ()

end GlobalSettings

-- The types of the fields.
structure ExecutionPolicy.InRange (policy : ExecutionPolicy) : Prop where
  maxAttempts           : policy.maxAttempts < 2 ^ 32
  timeoutSeconds        : policy.timeoutSeconds < 2 ^ 64
  initialBackoffSeconds : policy.initialBackoffSeconds < 2 ^ 64
  backoffCapSeconds     : policy.backoffCapSeconds < 2 ^ 64

-- The deadlines as the code computes them, with `none` for a panic.
namespace Deadline

-- `now + Duration::seconds(lease_seconds as i64)`
def lease (leaseSeconds : UInt64) (now : Time) : Option Time :=
  Chrono.addSeconds now leaseSeconds.toInt64

def createAttempt : (leaseSeconds : UInt64) → (now : Time) → Option Time :=
  lease

def acceptAttempt : (leaseSeconds : UInt64) → (now : Time) → Option Time :=
  lease

def renewAttempts : (leaseSeconds : UInt64) → (now : Time) → Option Time :=
  lease

def reauthorizeAttempt : (leaseSeconds : UInt64) → (now : Time) → Option Time :=
  lease

-- `lease_expires_at + grace`
def claimExpiredAttempts (heartbeatGraceSeconds : UInt64) (leaseExpiresAt : Time) : Option Time :=
  Chrono.addSeconds leaseExpiresAt (min heartbeatGraceSeconds (2 ^ 63 - 1)).toInt64

-- An unsigned number in a column of type `INTEGER`.
def column (n : Nat) : Int64 :=
  (UInt64.ofNat n).toInt64

-- `not_before`, where `random` is what `gen_range` draws from.
def finishAttemptInner (checks : Bool) (run : Run) (random : Nat) (now : Time) : Option Time := do
  let attemptCount := (column run.attemptCount).toUInt64.toUInt32
  let initial := (column run.initialBackoffSeconds).toUInt64
  let cap := (column run.backoffCapSeconds).toUInt64
  let shift := UInt64.ofNat (min (attemptCount.toNat - 1) 20)
  let exponential := Chrono.saturatingMul initial (1 <<< shift)
  let base := min exponential cap
  let jitter := .ofNat (random % ((max (base / 5) 1).toNat + 1))
  let delay ← Chrono.uadd checks base jitter
  Chrono.addSeconds now delay.toInt64

end Deadline

namespace Run

-- The delay without jitter.
def delay (run : Run) : Nat :=
  min (run.initialBackoffSeconds * 2 ^ (run.attemptCount - 1)) run.backoffCapSeconds

def maxBackoffSeconds (run : Run) : Nat :=
  run.backoffBase + max (run.backoffBase / 5) 1

end Run

-- All deadlines are what they are without bounds on numbers and times.
structure ExactDeadlines (checks : Bool) (settings : GlobalSettings) (run : Run)
    (leaseExpiresAt now : Time) : Prop where
  createAttempt : Deadline.createAttempt settings.leaseSeconds now =
    some (now + .seconds settings.leaseSeconds.toNat)
  acceptAttempt : Deadline.acceptAttempt settings.leaseSeconds now =
    some (now + .seconds settings.leaseSeconds.toNat)
  renewAttempts : Deadline.renewAttempts settings.leaseSeconds now =
    some (now + .seconds settings.leaseSeconds.toNat)
  reauthorizeAttempt : Deadline.reauthorizeAttempt settings.leaseSeconds now =
    some (now + .seconds settings.leaseSeconds.toNat)
  claimExpiredAttempts : Deadline.claimExpiredAttempts settings.heartbeatSeconds leaseExpiresAt =
    some (leaseExpiresAt + .seconds settings.heartbeatSeconds.toNat)
  finishAttemptInner (random : Nat) : Deadline.finishAttemptInner checks run random now =
    some (now + .seconds (run.backoffSeconds random))
  retry (random : Nat) : 1 ≤ run.attemptCount → run.attemptCount ≤ 21 →
    ∃ notBefore, Deadline.finishAttemptInner checks run random now = some notBefore ∧
      now + .seconds run.delay ≤ notBefore ∧
      notBefore ≤ now + .seconds (run.delay + max (run.delay / 5) 1)

structure BoundedDeadlines (settings : GlobalSettings) (run : Run) (leaseExpiresAt now : Time) :
    Prop where
  lease : now + .seconds settings.leaseSeconds.toNat ≤ Chrono.maxUtc
  grace : leaseExpiresAt + .seconds settings.heartbeatSeconds.toNat ≤ Chrono.maxUtc
  retry : now + .seconds run.maxBackoffSeconds ≤ Chrono.maxUtc

namespace Run

variable {run : Run}

theorem backoffBase_eq (hk : run.attemptCount ≤ 21) (hc : run.backoffCapSeconds < 2 ^ 64) :
    run.backoffBase = run.delay := by
  have hm : min (run.attemptCount - 1) 20 = run.attemptCount - 1 := by omega
  rw [backoffBase, delay, hm]
  generalize run.initialBackoffSeconds * 2 ^ (run.attemptCount - 1) = n
  omega

theorem le_backoffSeconds (random : Nat) : run.backoffBase ≤ run.backoffSeconds random :=
  Nat.le_add_right ..

theorem backoffSeconds_le (random : Nat) : run.backoffSeconds random ≤ run.maxBackoffSeconds :=
  Nat.add_le_add_left (Nat.le_of_lt_succ <| Nat.mod_lt _ <| Nat.succ_pos _) _

-- The longest delay is drawn.
theorem backoffSeconds_max :
    run.backoffSeconds (max (run.backoffBase / 5) 1) = run.maxBackoffSeconds := by
  rw [backoffSeconds, Nat.mod_eq_of_lt (Nat.lt_succ_self _), maxBackoffSeconds]

end Run

namespace Deadline

variable {t now : Time} {run : Run}

theorem lease_eq {n : UInt64} (hn : Chrono.minUtc ≤ now) :
    lease n now = some (now + .seconds n.toNat) ↔ now + .seconds n.toNat ≤ Chrono.maxUtc :=
  Chrono.addSeconds_cast hn

theorem claimExpiredAttempts_eq {n : UInt64} (ht : Chrono.minUtc ≤ t) :
    claimExpiredAttempts n t = some (t + .seconds n.toNat) ↔
      t + .seconds n.toNat ≤ Chrono.maxUtc := by
  constructor
  case mp => exact Chrono.le_of_addSeconds
  case mpr =>
    intro hu
    have hn : min n (2 ^ 63 - 1) = n := by
      have hl := Chrono.lt_of_le_maxUtc ht hu
      apply UInt64.toNat_inj.mp
      rw [Chrono.toNat_min, show (2 ^ 63 - 1 : UInt64).toNat = 2 ^ 63 - 1 by decide +kernel]
      omega
    rw [claimExpiredAttempts, hn]
    exact (Chrono.addSeconds_cast ht).mpr hu

theorem toNat_column {n : Nat} (hn : n < 2 ^ 64) : (column n).toUInt64.toNat = n := by
  rw [column, UInt64.toUInt64_toInt64, UInt64.toNat_ofNat', Nat.mod_eq_of_lt hn]

theorem toNat_shift {k : Nat} (hk : k ≤ 20) : (1 <<< UInt64.ofNat k : UInt64).toNat = 2 ^ k := by
  have h : 2 ^ k ≤ 2 ^ 20 := Nat.pow_le_pow_right (by decide) hk
  rw [UInt64.toNat_shiftLeft, UInt64.toNat_ofNat', UInt64.toNat_one, Nat.one_shiftLeft]
  have hk : k % 2 ^ 64 % 64 = k := by omega
  rw [hk, Nat.mod_eq_of_lt (by omega)]

variable (ha : run.attemptCount < 2 ^ 32) (hi : run.initialBackoffSeconds < 2 ^ 64)
  (hc : run.backoffCapSeconds < 2 ^ 64)

include ha hi hc in
theorem finishAttemptInner_eq {checks : Bool} {random : Nat} (hn : Chrono.minUtc ≤ now) :
    finishAttemptInner checks run random now = some (now + .seconds (run.backoffSeconds random)) ↔
      now + .seconds (run.backoffSeconds random) ≤ Chrono.maxUtc := by
  have hk : ((column run.attemptCount).toUInt64.toUInt32).toNat = run.attemptCount := by
    rw [UInt64.toNat_toUInt32, toNat_column (by omega), Nat.mod_eq_of_lt ha]
  generalize hb : min (Chrono.saturatingMul (column run.initialBackoffSeconds).toUInt64
    (1 <<< UInt64.ofNat (min (((column run.attemptCount).toUInt64.toUInt32).toNat - 1) 20)))
      (column run.backoffCapSeconds).toUInt64 = base
  have hb' : base.toNat = run.backoffBase := by
    rw [← hb, Chrono.toNat_min, Chrono.toNat_saturatingMul, toNat_shift (by omega), hk,
      toNat_column hi, toNat_column hc]
    rfl
  generalize hj : UInt64.ofNat (random % ((max (base / 5) 1).toNat + 1)) = jitter
  have hj' : base.toNat + jitter.toNat = run.backoffSeconds random := by
    have hm : (max (base / 5) 1).toNat = max (run.backoffBase / 5) 1 := by
      rw [Chrono.toNat_max, UInt64.toNat_div, hb']
      rfl
    have hl := base.toNat_lt
    have hr := Nat.mod_lt random (Nat.add_one_pos (max (run.backoffBase / 5) 1))
    rw [← hj, hm, UInt64.toNat_ofNat', hb', Nat.mod_eq_of_lt (by omega)]
    rfl
  have hd : finishAttemptInner checks run random now =
      (Chrono.uadd checks base jitter).bind fun k => Chrono.addSeconds now k.toInt64 := by
    rw [← hj, ← hb]
    rfl
  rw [hd, ← hj']
  exact Chrono.addSeconds_uadd hn

end Deadline

theorem add_seconds_mono {m n : Nat} (t : Time) (h : m ≤ n) : t + .seconds m ≤ t + .seconds n := by
  simp only [Time.seconds]
  gcongr

theorem deadlines_exact_iff {checks : Bool} {settings : GlobalSettings} {policy : ExecutionPolicy}
    {run : Run} {leaseExpiresAt now : Time} (hp : policy.InRange)
    (hi : run.initialBackoffSeconds = policy.initialBackoffSeconds)
    (hc : run.backoffCapSeconds = policy.backoffCapSeconds) (ha : run.attemptCount < 2 ^ 32)
    (hn : Chrono.minUtc ≤ now) (hl : Chrono.minUtc ≤ leaseExpiresAt) :
    ExactDeadlines checks settings run leaseExpiresAt now ↔
      BoundedDeadlines settings run leaseExpiresAt now := by
  have hi := hi.trans_lt hp.initialBackoffSeconds
  have hc := hc.trans_lt hp.backoffCapSeconds
  constructor
  case mp =>
    intro h
    constructor
    case lease => exact (Deadline.lease_eq hn).mp h.createAttempt
    case grace => exact (Deadline.claimExpiredAttempts_eq hl).mp h.claimExpiredAttempts
    case retry =>
      rw [← Run.backoffSeconds_max]
      exact (Deadline.finishAttemptInner_eq ha hi hc hn).mp (h.finishAttemptInner _)
  case mpr =>
    intro h
    have hf random : Deadline.finishAttemptInner checks run random now =
        some (now + .seconds (run.backoffSeconds random)) :=
      (Deadline.finishAttemptInner_eq ha hi hc hn).mpr <|
        (add_seconds_mono now <| Run.backoffSeconds_le random).trans h.retry
    constructor
    case createAttempt | acceptAttempt | renewAttempts | reauthorizeAttempt =>
      exact (Deadline.lease_eq hn).mpr h.lease
    case claimExpiredAttempts => exact (Deadline.claimExpiredAttempts_eq hl).mpr h.grace
    case finishAttemptInner => exact hf
    case retry =>
      intro random _ hk
      refine ⟨_, hf random, ?_, ?_⟩ <;> rw [← Run.backoffBase_eq hk hc]
      · exact add_seconds_mono now <| Run.le_backoffSeconds random
      · exact add_seconds_mono now <| Run.backoffSeconds_le random

namespace Sample

-- A summer day in 2027.
def midsummer : Time := 1813536000000

def isUtc : SettingsRuntime :=
  { isTimezone := (· = "UTC"), parseUrl := fun _ => none }

def leased (seconds : UInt64) : GlobalSettings :=
  { leaseSeconds := seconds }

def patient (seconds : Nat) : Blueprints.Blueprint :=
  { (greeting ["hello"]).blueprint with policy := ⟨2, 60, seconds, seconds⟩ }

-- A run of that blueprint after its first attempt.
def postponed (seconds : Nat) : Run where
  id                    := 10
  scheduleId            := 1
  state                 := .running
  triggerKind           := .manual
  scheduledAt           := 0
  notBefore             := 0
  encryptedSnapshot     := none
  maxAttempts           := 2
  initialBackoffSeconds := seconds
  backoffCapSeconds     := seconds
  attemptCount          := 1
  attemptOffset         := 0
  idempotencyKey        := none
  batchId               := none
  batchItemId           := none
  createdAt             := 0

end Sample

open Sample

theorem deadlines_exact_iff_default :
    (leased 60).validate isUtc = .ok () ∧ lenient.validateBlueprint (patient 5) = .ok () ∧
    ExactDeadlines true (leased 60) (postponed 5) midsummer midsummer := by
  have hp : (patient 5).policy.InRange := ⟨by decide, by decide, by decide, by decide⟩
  have hb : BoundedDeadlines (leased 60) (postponed 5) midsummer midsummer :=
    ⟨by decide +kernel, by decide +kernel, by decide +kernel⟩
  have hn : Chrono.minUtc ≤ midsummer := by decide
  exact ⟨by decide +kernel, by decide +kernel,
    (deadlines_exact_iff hp rfl rfl (by decide) hn hn).mpr hb⟩

-- A lease of thirty million years panics, and one that is nearly `u64::MAX` seconds long has ended
-- a minute ago. A backoff of thirty million years panics as well.
theorem accepted_deadlines_fail :
    (leased (10 ^ 15)).validate isUtc = .ok () ∧
    Deadline.createAttempt (leased (10 ^ 15)).leaseSeconds midsummer = none ∧
    (leased 18446744073709551556).validate isUtc = .ok () ∧
    Deadline.renewAttempts (leased 18446744073709551556).leaseSeconds midsummer =
      some (midsummer - .seconds 60) ∧
    lenient.validateBlueprint (patient (10 ^ 15)) = .ok () ∧
    Deadline.finishAttemptInner false (postponed (10 ^ 15)) 0 midsummer = none := by
  decide +kernel

end Scheduler
