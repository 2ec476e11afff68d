import Mathlib

/-!
Machine arithmetic of times: unsigned seconds that pass through a signed cast, durations and
instants that have bounds, and sums that panic beyond them. Times and durations are in
milliseconds, and `none` is a panic.
-/

namespace Chrono

-- The first and the last instant that can be represented, in the years -262143 and 262142.
def minUtc : Int := -8334601228800000
def maxUtc : Int := 8210266876799999

-- A duration is at most `i64::MAX` milliseconds.
def maxSeconds : Int := 9223372036854775

def seconds (n : Int64) : Option Int :=
  if -maxSeconds ≤ n.toInt ∧ n.toInt ≤ maxSeconds then some (1000 * n.toInt) else none

def add (t d : Int) : Option Int :=
  if minUtc ≤ t + d ∧ t + d ≤ maxUtc then some (t + d) else none

def addSeconds (t : Int) (n : Int64) : Option Int :=
  (seconds n).bind (add t)

-- `+` on `u64`, which panics where overflow is checked and wraps where it is not.
def uadd (checks : Bool) (m n : UInt64) : Option UInt64 :=
  if checks ∧ 2 ^ 64 ≤ m.toNat + n.toNat then none else some (m + n)

def saturatingMul (m n : UInt64) : UInt64 :=
  .ofNat (min (m.toNat * n.toNat) (2 ^ 64 - 1))

variable {t u : Int} {m n : UInt64}

theorem toInt_toInt64 (n : UInt64) :
    n.toInt64.toInt = if n.toNat < 2 ^ 63 then (n.toNat : Int) else n.toNat - 2 ^ 64 := by
  rw [← Int64.toInt_toBitVec, UInt64.toBitVec_toInt64, BitVec.toInt_eq_toNat_cond,
    UInt64.toNat_toBitVec]
  grind

theorem toNat_min : (min m n).toNat = min m.toNat n.toNat := by
  change (if m ≤ n then m else n).toNat = _
  split <;> rename_i h <;> rw [UInt64.le_iff_toNat_le] at h <;> omega

theorem toNat_max : (max m n).toNat = max m.toNat n.toNat := by
  change (if m ≤ n then n else m).toNat = _
  split <;> rename_i h <;> rw [UInt64.le_iff_toNat_le] at h <;> omega

theorem toNat_saturatingMul : (saturatingMul m n).toNat = min (m.toNat * n.toNat) (2 ^ 64 - 1) := by
  rw [saturatingMul, UInt64.toNat_ofNat', Nat.mod_eq_of_lt]
  omega

theorem addSeconds_eq_some {n : Int64} : addSeconds t n = some u ↔
    (-maxSeconds ≤ n.toInt ∧ n.toInt ≤ maxSeconds) ∧
      u = t + 1000 * n.toInt ∧ minUtc ≤ u ∧ u ≤ maxUtc := by
  rw [addSeconds, Option.bind_eq_some_iff]
  simp only [seconds, add, Option.ite_none_right_eq_some, Option.some.injEq]
  constructor
  case mp =>
    rintro ⟨_, ⟨hs, rfl⟩, hu, rfl⟩
    exact ⟨hs, rfl, hu⟩
  case mpr =>
    rintro ⟨hs, rfl, hu⟩
    exact ⟨_, ⟨hs, rfl⟩, hu, rfl⟩

theorem le_of_addSeconds {n : Int64} (h : addSeconds t n = some u) : u ≤ maxUtc :=
  (addSeconds_eq_some.mp h).right.right.right

theorem lt_of_le_maxUtc {k : Nat} (ht : minUtc ≤ t) (hu : t + 1000 * k ≤ maxUtc) : k < 2 ^ 63 := by
  simp only [minUtc, maxUtc] at ht hu
  omega

-- The cast, the duration and the sum are exact if and only if the sum can be represented.
theorem addSeconds_cast (ht : minUtc ≤ t) :
    addSeconds t n.toInt64 = some (t + 1000 * n.toNat) ↔ t + 1000 * n.toNat ≤ maxUtc := by
  constructor
  case mp => exact le_of_addSeconds
  case mpr =>
    intro hu
    have hn := lt_of_le_maxUtc ht hu
    rw [addSeconds_eq_some, toInt_toInt64, if_pos hn]
    refine ⟨?_, rfl, by omega, hu⟩
    simp only [minUtc, maxUtc, maxSeconds] at ht hu ⊢
    omega

-- So are they after an addition of unsigned seconds.
theorem addSeconds_uadd {checks : Bool} (ht : minUtc ≤ t) :
    ((uadd checks m n).bind fun k => addSeconds t k.toInt64) =
      some (t + 1000 * (m.toNat + n.toNat : Nat)) ↔
        t + 1000 * (m.toNat + n.toNat : Nat) ≤ maxUtc := by
  constructor
  case mp =>
    intro h
    have ⟨_, _, h⟩ := Option.bind_eq_some_iff.mp h
    exact le_of_addSeconds h
  case mpr =>
    intro hu
    have hn := lt_of_le_maxUtc ht hu
    have hs : (m + n).toNat = m.toNat + n.toNat := by
      rw [UInt64.toNat_add, Nat.mod_eq_of_lt (by omega)]
    rw [uadd, if_neg (by omega), Option.bind_some, ← hs, addSeconds_cast ht, hs]
    exact hu

end Chrono
