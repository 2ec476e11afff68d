import Mathlib

-- Numbers as decimal digits.
namespace Digits

def write : (width n : Nat) → List Char
  | 0, _         => []
  | width + 1, n => write width (n / 10) ++ [Nat.digitChar (n % 10)]

def value (text : List Char) : Nat :=
  text.foldl (fun n c => 10 * n + (c.toNat - '0'.toNat)) 0

-- What the digits of a given number of characters stand for, and what is after them.
def read (width : Nat) (text : List Char) : Option (Nat × List Char) :=
  if width ≤ text.length ∧ (text.take width).all Char.isDigit then
    some (value (text.take width), text.drop width)
  else
    none

-- An unsigned number below a bound: digits, maybe after a plus sign.
def parse (bound : Nat) (text : List Char) : Option Nat :=
  let digits := if text.head? = some '+' then text.tail else text
  let value := Nat.ofDigitChars 10 digits 0
  if digits ≠ [] ∧ digits.all Char.isDigit ∧ value < bound then some value else none

variable {width n m bound : Nat} {rest rest' : List Char}

theorem isDigit_toDigits : (Nat.toDigits 10 n).all Char.isDigit := by
  refine List.all_eq_true.mpr fun c hc => ?_
  exact Nat.isDigit_of_mem_toDigits (by decide) (by decide) hc

theorem parse_toDigits (h : n < bound) : parse bound (Nat.toDigits 10 n) = some n := by
  have hh : (Nat.toDigits 10 n).head? ≠ some '+' := by
    intro hc
    have hc := List.all_eq_true.mp isDigit_toDigits _ <| List.mem_of_mem_head? hc
    contradiction
  simp only [parse, if_neg hh, Nat.ofDigitChars_ten_toDigits]
  exact if_pos ⟨Nat.toDigits_ne_nil, isDigit_toDigits, h⟩

@[simp]
theorem length_write : (write width n).length = width := by
  induction width generalizing n
  case zero => rfl
  case succ width hi => simp [write, hi]

theorem isDigit_write : (write width n).all Char.isDigit := by
  induction width generalizing n
  case zero => rfl
  case succ width hi =>
    have h : ∀ d < 10, (Nat.digitChar d).isDigit := by decide
    rw [write, List.all_append, hi, List.all_cons, h _ (Nat.mod_lt n (by decide))]
    rfl

theorem value_write (h : n < 10 ^ width) : value (write width n) = n := by
  induction width generalizing n
  case zero =>
    have hn : n = 0 := by simpa using h
    rw [hn]
    rfl
  case succ width hi =>
    have hd : ∀ d < 10, (Nat.digitChar d).toNat - '0'.toNat = d := by decide
    have hq : n / 10 < 10 ^ width := Nat.div_lt_of_lt_mul (by rwa [pow_succ'] at h)
    have hv := hi hq
    unfold value at hv ⊢
    rw [write, List.foldl_append, hv, List.foldl_cons, List.foldl_nil,
      hd _ (Nat.mod_lt n (by decide))]
    exact Nat.div_add_mod n 10

theorem read_write (h : n < 10 ^ width) : read width (write width n ++ rest) = some (n, rest) := by
  have ht : (write width n ++ rest).take width = write width n := List.take_left' length_write
  have hd : (write width n ++ rest).drop width = rest := List.drop_left' length_write
  rw [read, ht, hd, if_pos, value_write h]
  exact ⟨by simp, isDigit_write⟩

theorem append_lt_append {α : Type} [LinearOrder α] {a a' b b' : List α}
    (h : a.length = a'.length) : a ++ b < a' ++ b' ↔ a < a' ∨ a = a' ∧ b < b' := by
  induction a generalizing a'
  case nil =>
    cases a'
    case nil => simp
    case cons => contradiction
  case cons x a hi =>
    cases a'
    case nil => contradiction
    case cons x' a' =>
      have h : a.length = a'.length := by simpa using h
      rw [List.cons_append, List.cons_append, List.cons_lt_cons_iff, List.cons_lt_cons_iff, hi h]
      simp only [List.cons.injEq]
      tauto

theorem write_inj (hn : n < 10 ^ width) (hm : m < 10 ^ width) :
    write width n = write width m ↔ n = m := by
  constructor
  case mp =>
    intro h
    rw [← value_write hn, h, value_write hm]
  case mpr => exact congrArg _

-- The order of the digits is the order of the numbers.
theorem write_lt (hn : n < 10 ^ width) (hm : m < 10 ^ width) :
    write width n < write width m ↔ n < m := by
  induction width generalizing n m
  case zero => simp_all [write]
  case succ width hi =>
    have hc : ∀ d < 10, ∀ e < 10, Nat.digitChar d < Nat.digitChar e ↔ d < e := by decide
    have hq {n : Nat} (h : n < 10 ^ (width + 1)) : n / 10 < 10 ^ width :=
      Nat.div_lt_of_lt_mul (by rwa [pow_succ'] at h)
    rw [write, write, append_lt_append (by simp), hi (hq hn) (hq hm), write_inj (hq hn) (hq hm),
      List.cons_lt_cons_iff, hc _ (Nat.mod_lt n (by decide)) _ (Nat.mod_lt m (by decide))]
    simp
    omega

-- Fields of the same width are compared from left to right.
theorem write_append_lt (hn : n < 10 ^ width) (hm : m < 10 ^ width) :
    write width n ++ rest < write width m ++ rest' ↔ n < m ∨ n = m ∧ rest < rest' := by
  rw [append_lt_append (by simp), write_lt hn hm, write_inj hn hm]

theorem cons_write_append_lt {c : Char} (hn : n < 10 ^ width) (hm : m < 10 ^ width) :
    c :: (write width n ++ rest) < c :: (write width m ++ rest') ↔
      n < m ∨ n = m ∧ rest < rest' := by
  rw [List.cons_lt_cons_iff, write_append_lt hn hm]
  simp

end Digits
