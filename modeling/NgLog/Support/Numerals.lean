import Mathlib.Data.Nat.Digits.Lemmas
import NgLog.Support.Bytes

/-!
# Numerals

The digits of a number in a base of at most 16, as bytes, and the number that digits stand for.

## Main definitions

* `digitByte`, `digitValue` — the byte of a digit, and the digit of a byte
* `numeral`, `value` — the numeral of a number, and the number of a numeral

## Main results

* `isDigit_iff` — the digits of a base of at most ten
* `numeral_of_lt`, `numeral_of_le` — the digits of a numeral, from the last one on
* `value_numeral` — a numeral stands for its number
* `value_cons` — the first digit weighs a power of the base
* `digit_head_numeral` — the numeral of a positive number does not begin with a zero
* `exceeds_iff` — the next digit exceeds a limit
-/

namespace NgLog

namespace Numeral

/-- The byte of a digit below 16. -/
def digitByte (digit : ℕ) : Byte := UInt8.ofNat (if digit < 10 then 0x30 + digit else 0x57 + digit)

/-- What a byte is worth as a digit, if it is a digit or a letter. -/
def digitValue (c : Byte) : Option ℕ :=
  if 0x30 ≤ c ∧ c ≤ 0x39 then some (c.toNat - 0x30)
  else if 0x61 ≤ c ∧ c ≤ 0x7A then some (c.toNat - 0x57)
  else if 0x41 ≤ c ∧ c ≤ 0x5A then some (c.toNat - 0x37)
  else none

/-- Whether a byte is a digit in the base. -/
def isDigit (base : ℕ) (c : Byte) : Bool := (digitValue c).any fun digit => digit < base

/-- The digit that a byte is worth, or zero. -/
def digit (c : Byte) : ℕ := (digitValue c).getD 0

/-- The digits of a number, with the most significant one first. -/
def numeral (base n : ℕ) : List Byte :=
  if n = 0 then [0x30] else ((Nat.digits base n).map digitByte).reverse

/-- The number that the digits stand for. -/
def value (base : ℕ) (text : List Byte) : ℕ := text.foldl (fun n c => n * base + digit c) 0

theorem digitValue_digitByte : ∀ d < 16, digitValue (digitByte d) = some d := by decide

theorem digit_digitByte {d : ℕ} (h : d < 16) : digit (digitByte d) = d := by
  rw [digit, digitValue_digitByte d h, Option.getD_some]

theorem isDigit_digitByte {base d : ℕ} (hbase : base ≤ 16) (h : d < base) :
    isDigit base (digitByte d) = true := by
  rw [isDigit, digitValue_digitByte d (by omega), Option.any_some]
  exact decide_eq_true h

variable {base n : ℕ}

theorem isDigit_zero (h : 0 < base) : isDigit base 0x30 = true := decide_eq_true h

/-- In a base of at most ten, the digits are consecutive bytes. -/
theorem isDigit_iff (hbase : base ≤ 10) (c : Byte) :
    isDigit base c = true ↔ 0x30 ≤ c.toNat ∧ c.toNat < 0x30 + base := by
  have h30 : (0x30 : Byte).toNat = 0x30 := rfl
  have h39 : (0x39 : Byte).toNat = 0x39 := rfl
  have h61 : (0x61 : Byte).toNat = 0x61 := rfl
  have h7A : (0x7A : Byte).toNat = 0x7A := rfl
  have h41 : (0x41 : Byte).toNat = 0x41 := rfl
  have h5A : (0x5A : Byte).toNat = 0x5A := rfl
  rw [isDigit, digitValue]
  simp only [UInt8.le_iff_toNat_le, h30, h39, h61, h7A, h41, h5A]
  split_ifs <;>
    simp only [Option.any_some, Option.any_none, decide_eq_true_eq, Bool.false_eq_true,
      false_iff] <;>
    omega

theorem digit_eq {c : Byte} (hc : 0x30 ≤ c.toNat ∧ c.toNat < 0x3A) : digit c = c.toNat - 0x30 := by
  have hle : 0x30 ≤ c ∧ c ≤ 0x39 :=
    ⟨UInt8.le_iff_toNat_le.mpr hc.1, UInt8.le_iff_toNat_le.mpr (Nat.le_of_lt_succ hc.2)⟩
  rw [digit, digitValue, if_pos hle, Option.getD_some]

theorem numeral_ne_nil (base n : ℕ) : numeral base n ≠ [] := by
  rw [numeral]
  split
  · exact List.cons_ne_nil _ _
  · rw [Ne, List.reverse_eq_nil_iff, List.map_eq_nil_iff]
    exact Nat.digits_ne_nil_iff_ne_zero.mpr ‹n ≠ 0›

theorem isDigit_of_mem_numeral (hbase : 1 < base) (hsmall : base ≤ 16) :
    ∀ c ∈ numeral base n, isDigit base c = true := by
  rw [numeral]
  split
  · exact List.forall_mem_singleton.mpr (isDigit_zero (by omega))
  · intro c hc
    obtain ⟨d, hd, rfl⟩ := List.mem_map.mp (List.mem_reverse.mp hc)
    exact isDigit_digitByte hsmall (Nat.digits_lt_base hbase hd)

theorem zero_notMem_numeral (hbase : 1 < base) (hsmall : base ≤ 16) : 0 ∉ numeral base n := by
  intro hzero
  have hdigit := isDigit_of_mem_numeral hbase hsmall 0 hzero
  have hnone : isDigit base 0 = false := rfl
  exact Bool.false_ne_true (hnone.symm.trans hdigit)

theorem length_numeral_le {count : ℕ} (hbase : 1 < base) (hcount : 0 < count)
    (h : n < base ^ count) :
    (numeral base n).length ≤ count := by
  rw [numeral]
  split
  · exact hcount
  · rw [List.length_reverse, List.length_map]
    exact (Nat.digits_length_le_iff hbase n).mpr h

/-! ### Digit by digit -/

theorem numeral_of_lt (h : n < base) : numeral base n = [digitByte n] := by
  rw [numeral]
  split
  · rename_i hzero
    rw [hzero]
    rfl
  · rename_i hne
    rw [Nat.digits_of_lt base n hne h]
    rfl

/-- The last digit is the remainder. -/
theorem numeral_of_le (hbase : 1 < base) (h : base ≤ n) :
    numeral base n = numeral base (n / base) ++ [digitByte (n % base)] := by
  have hpos : 0 < n / base := Nat.div_pos h (by omega)
  rw [numeral, numeral, if_neg (by omega), if_neg (by omega), Nat.digits_def' hbase (by omega),
    List.map_cons, List.reverse_cons]

/-! ### The number of a numeral -/

theorem foldl_value (base start : ℕ) (text : List Byte) :
    text.foldl (fun n c => n * base + digit c) start =
      start * base ^ text.length + value base text := by
  induction text generalizing start with
  | nil =>
    rw [value, List.foldl_nil, List.foldl_nil, List.length_nil, Nat.pow_zero, Nat.mul_one,
      Nat.add_zero]
  | cons c text ih =>
    rw [value, List.foldl_cons, List.foldl_cons, ih, ih (0 * base + digit c), List.length_cons,
      Nat.pow_succ']
    ring

theorem value_nil (base : ℕ) : value base [] = 0 := rfl

/-- The first digit weighs a power of the base. -/
theorem value_cons (base : ℕ) (c : Byte) (text : List Byte) :
    value base (c :: text) = digit c * base ^ text.length + value base text := by
  rw [value, List.foldl_cons, foldl_value, Nat.zero_mul, Nat.zero_add]

theorem value_append (base : ℕ) (text text' : List Byte) :
    value base (text ++ text') = value base text * base ^ text'.length + value base text' := by
  rw [value, List.foldl_append, foldl_value]
  rfl

theorem value_zero_cons (base : ℕ) (text : List Byte) :
    value base (0x30 :: text) = value base text := by
  have hzero : digit 0x30 = 0 := rfl
  rw [value_cons, hzero, Nat.zero_mul, Nat.zero_add]

theorem value_zeros (base count : ℕ) (text : List Byte) :
    value base (List.replicate count 0x30 ++ text) = value base text := by
  induction count with
  | zero => rfl
  | succ count ih => rw [List.replicate_succ, List.cons_append, value_zero_cons, ih]

theorem value_reverse_map (base : ℕ) {digits : List ℕ} (h : ∀ d ∈ digits, d < 16) :
    value base (digits.map digitByte).reverse = Nat.ofDigits base digits := by
  induction digits with
  | nil => rfl
  | cons d digits ih =>
    have htail : ∀ d ∈ digits, d < 16 := fun d hd => h d (List.mem_cons_of_mem _ hd)
    rw [List.map_cons, List.reverse_cons, value_append, ih htail, Nat.ofDigits_cons, value_cons,
      value_nil, digit_digitByte (h d List.mem_cons_self)]
    simp only [List.length_cons, List.length_nil]
    ring

/-- A numeral stands for its number. -/
theorem value_numeral (hbase : 1 < base) (hsmall : base ≤ 16) (n : ℕ) :
    value base (numeral base n) = n := by
  rw [numeral]
  split
  · rename_i hzero
    rw [hzero, value_zero_cons, value_nil]
  · rw [value_reverse_map base fun d hd => (Nat.digits_lt_base hbase hd).trans_le hsmall,
      Nat.ofDigits_digits]

theorem lt_pow_length_numeral (hbase : 1 < base) (n : ℕ) : n < base ^ (numeral base n).length := by
  rw [numeral]
  split
  · rename_i hzero
    rw [hzero]
    exact Nat.pow_pos (by omega)
  · rw [List.length_reverse, List.length_map]
    exact Nat.lt_base_pow_length_digits hbase

/-- The numeral of a positive number does not begin with a zero. -/
theorem digit_head_numeral (hbase : 1 < base) (hsmall : base ≤ 16) (hn : n ≠ 0) :
    ∀ c ∈ (numeral base n).head?, 0 < digit c := by
  intro c hc
  have hne : Nat.digits base n ≠ [] := Nat.digits_ne_nil_iff_ne_zero.mpr hn
  rw [numeral, if_neg hn, List.head?_reverse, List.getLast?_map,
    List.getLast?_eq_some_getLast hne] at hc
  obtain rfl := Option.some.inj hc
  have hlt := Nat.digits_lt_base hbase (List.getLast_mem hne)
  rw [digit_digitByte (hlt.trans_le hsmall)]
  exact Nat.pos_of_ne_zero (Nat.getLast_digit_ne_zero base hn)

/-! ### A limit -/

/-- Whether another digit takes a number above a limit is seen before it is appended. -/
theorem exceeds_iff {limit d : ℕ} (hd : d < base) :
    limit / base < n ∨ n = limit / base ∧ limit % base < d ↔ limit < n * base + d := by
  have hlimit : limit / base * base + limit % base = limit := Nat.div_add_mod' limit base
  have hmod : limit % base < base := Nat.mod_lt limit (by omega)
  rcases Nat.lt_trichotomy n (limit / base) with hlt | heq | hgt
  · have hnext : (n + 1) * base ≤ limit / base * base := Nat.mul_le_mul_right base hlt
    rw [Nat.succ_mul] at hnext
    omega
  · subst heq
    omega
  · have hnext : (limit / base + 1) * base ≤ n * base := Nat.mul_le_mul_right base hgt
    rw [Nat.succ_mul] at hnext
    omega

end Numeral

end NgLog
