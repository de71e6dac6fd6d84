import NgLog.Ensure.Near
import NgLog.Throttle.Periods

/-!
# Periods of a rate limit in nanoseconds

`SaturatingNanoseconds` multiplies a count by the ratio of its period to nanoseconds. It divides by
the denominator first, so that only a result outside the range of nanoseconds saturates: quotient
and remainder are multiplied separately, and both have the sign of the count. Each of its tests
stands before the operation that it keeps in range.

Every operation here gives nothing when its result is not a value of its type, conversions included.
That a result is there then says that no operation overflowed and no conversion changed the value.

## Main definitions

* `Ratio` — a ratio that passes the static assertion
* `saturatingNanoseconds` — the branch for integers

## Main results

* `tdiv_split` — quotient and remainder give the truncated product
* `saturatingNanoseconds_eq` — the exact value, clamped to the range of nanoseconds
-/

namespace NgLog

namespace Throttle

open Ensure

/-- The result of an operation, unless it is not a value of the type. -/
def IntegerType.exactly (T : IntegerType) (n : ℤ) : Option ℤ := if T.Holds n then some n else none

/-- `std::intmax_t`. -/
abbrev intmax : IntegerType := int64

/-- A ratio of a period to nanoseconds. Both numbers of a `std::ratio` of a duration are
positive. -/
structure Ratio where
  num : ℤ
  den : ℤ
  num_pos : 0 < num
  den_pos : 0 < den
  /-- The static assertion. -/
  den_le : den ≤ intmax.max.tdiv num

/-- The sum at the end of `SaturatingNanoseconds`. -/
def addFraction (whole fraction : ℤ) : Option ℤ := do
  if 0 < fraction then
    let limit ← int64.exactly (int64.max - fraction)
    if limit < whole then
      return int64.max
  if fraction < 0 then
    let limit ← int64.exactly (int64.min - fraction)
    if whole < limit then
      return int64.min
  int64.exactly (whole + fraction)

/-- The part of `SaturatingNanoseconds` after the two divisions. -/
def multiplyParts (ratio : Ratio) (quotient rest : ℤ) : Option ℤ := do
  if int64.max.tdiv ratio.num < quotient then
    return int64.max
  if quotient < int64.min.tdiv ratio.num then
    return int64.min
  let quotient ← int64.exactly quotient
  let whole ← int64.exactly (quotient * ratio.num)
  let product ← intmax.exactly (rest * ratio.num)
  let fraction ← int64.exactly (product.tdiv ratio.den)
  addFraction whole fraction

/-- `SaturatingNanoseconds`, for a representation that is no floating-point type. -/
def saturatingNanoseconds {Rep : IntegerType} (ratio : Ratio) (period : Rep.Value) : Option ℤ := do
  let wide := if Rep.signed then intmax else uintmax
  let count ← wide.exactly period.val
  let den ← wide.exactly ratio.den
  let quotient ← wide.exactly (count.tdiv den)
  let rest ← intmax.exactly (count.tmod den)
  multiplyParts ratio quotient rest

/-! ### Ranges -/

theorem IntegerType.exactly_of_holds {T : IntegerType} {n : ℤ} (h : T.Holds n) :
    T.exactly n = some n := if_pos h

theorem int64_max : int64.max = 2 ^ 63 - 1 := rfl

theorem int64_min : int64.min = -2 ^ 63 := rfl

theorem int64_exactly {n : ℤ} (hmin : -2 ^ 63 ≤ n) (hmax : n ≤ 2 ^ 63 - 1) :
    int64.exactly n = some n := IntegerType.exactly_of_holds ⟨hmin, hmax⟩

theorem uintmax_exactly {n : ℤ} (hmin : 0 ≤ n) (hmax : n ≤ 2 ^ 64 - 1) :
    uintmax.exactly n = some n := IntegerType.exactly_of_holds ⟨hmin, hmax⟩

/-- What a count of the wide type of its signedness is at least, and at most. -/
theorem wide_bounds {Rep : IntegerType} (hRep : Rep.width ≤ 64) (period : Rep.Value) :
    if Rep.signed then -2 ^ 63 ≤ period.val ∧ period.val ≤ 2 ^ 63 - 1
    else 0 ≤ period.val ∧ period.val ≤ 2 ^ 64 - 1 := by
  obtain ⟨n, hmin, hmax⟩ := period
  have hwide := two_pow_le hRep
  have hhalf := two_pow_le (show Rep.width - 1 ≤ 63 by omega)
  rw [IntegerType.min] at hmin
  rw [IntegerType.max] at hmax
  split
  · next hsigned =>
    rw [if_pos hsigned] at hmin hmax
    constructor <;> simp only <;> omega
  · next hsigned =>
    rw [if_neg hsigned] at hmin hmax
    constructor <;> simp only <;> omega

/-- The product that the static assertion bounds. -/
theorem Ratio.mul_le (ratio : Ratio) : ratio.den * ratio.num ≤ 2 ^ 63 - 1 := by
  have hle := ratio.den_le
  rw [int64_max, Int.tdiv_eq_ediv_of_nonneg (by decide)] at hle
  exact (Int.le_ediv_iff_mul_le ratio.num_pos).mp hle

theorem Ratio.den_le_max (ratio : Ratio) : ratio.den ≤ 2 ^ 63 - 1 := by
  have hmul := Int.mul_le_mul_of_nonneg_left ratio.num_pos ratio.den_pos.le
  have hle := ratio.mul_le
  omega

/-! ### Quotient and remainder -/

variable {count den num : ℤ}

/-- The quotient and the remainder give the truncated product, since both have the sign of the
count. -/
theorem tdiv_split (hden : 0 < den) (hnum : 0 < num) (count : ℤ) :
    (count * num).tdiv den = count.tdiv den * num + (count.tmod den * num).tdiv den := by
  have hnonneg (n : ℤ) (hn : 0 ≤ n) :
      (n * num).tdiv den = n.tdiv den * num + (n.tmod den * num).tdiv den := by
    have hrest := Int.emod_nonneg n (Int.ne_of_gt hden)
    rw [Int.tdiv_eq_ediv_of_nonneg (Int.mul_nonneg hn hnum.le), Int.tdiv_eq_ediv_of_nonneg hn,
      Int.tmod_eq_emod_of_nonneg hn, Int.tdiv_eq_ediv_of_nonneg (Int.mul_nonneg hrest hnum.le)]
    have hsplit : n * num = n % den * num + den * (n / den * num) := by
      conv => lhs; rw [← Int.emod_add_mul_ediv n den]
      rw [Int.add_mul, Int.mul_assoc]
    rw [hsplit, Int.add_mul_ediv_left _ _ (Int.ne_of_gt hden), Int.add_comm]
  rcases Int.le_total 0 count with hcount | hcount
  · exact hnonneg count hcount
  · have h := hnonneg (-count) (by omega)
    rw [Int.neg_mul, Int.neg_tdiv, Int.neg_tdiv, Int.neg_tmod, Int.neg_mul, Int.neg_mul,
      Int.neg_tdiv] at h
    omega

/-- The remainder is less than the denominator, and has the sign of the count. -/
theorem tmod_bounds (hden : 0 < den) (count : ℤ) :
    (0 ≤ count ∧ 0 ≤ count.tdiv den ∧ count.tdiv den ≤ count ∧ 0 ≤ count.tmod den ∧
        count.tmod den < den) ∨
      (count ≤ 0 ∧ count.tdiv den ≤ 0 ∧ count ≤ count.tdiv den ∧ count.tmod den ≤ 0 ∧
        -den < count.tmod den) := by
  have hnonneg (n : ℤ) (hn : 0 ≤ n) :
      0 ≤ n.tdiv den ∧ n.tdiv den ≤ n ∧ 0 ≤ n.tmod den ∧ n.tmod den < den :=
    ⟨Int.tdiv_nonneg hn hden.le, Int.tdiv_le_self den hn, Int.tmod_nonneg den hn,
      Int.tmod_lt_of_pos n hden⟩
  rcases Int.le_total 0 count with hcount | hcount
  · exact Or.inl ⟨hcount, hnonneg count hcount⟩
  · have h := hnonneg (-count) (by omega)
    rw [Int.neg_tdiv, Int.neg_tmod] at h
    exact Or.inr ⟨hcount, by omega⟩

/-- A quotient that the first test lets pass, and one that it does not. -/
theorem max_tdiv_lt_iff (hnum : 0 < num) (quotient : ℤ) :
    int64.max.tdiv num < quotient ↔ 2 ^ 63 - 1 < quotient * num := by
  rw [int64_max, Int.tdiv_eq_ediv_of_nonneg (by decide), Int.ediv_lt_iff_lt_mul hnum]

theorem lt_min_tdiv_iff (hnum : 0 < num) (quotient : ℤ) :
    quotient < int64.min.tdiv num ↔ quotient * num < -2 ^ 63 := by
  have hlt := Int.ediv_lt_iff_lt_mul (a := 2 ^ 63) (b := -quotient) hnum
  rw [Int.neg_mul] at hlt
  rw [int64_min, Int.neg_tdiv, Int.tdiv_eq_ediv_of_nonneg (by decide)]
  omega

/-! ### The conversion -/

/-- The wide type holds what lies between zero and a count of its signedness. -/
theorem wide_exactly {Rep : IntegerType} (hRep : Rep.width ≤ 64) {n : ℤ} (period : Rep.Value)
    (h : 0 ≤ n ∧ n ≤ period.val ∨ n ≤ 0 ∧ period.val ≤ n) :
    (if Rep.signed then intmax else uintmax).exactly n = some n := by
  have hbounds := wide_bounds hRep period
  split
  · next hsigned =>
    rw [if_pos hsigned] at hbounds
    exact int64_exactly (by omega) (by omega)
  · next hsigned =>
    rw [if_neg hsigned] at hbounds
    exact uintmax_exactly (by omega) (by omega)

/-- Both wide types hold the greatest `std::intmax_t`. -/
theorem wide_exactly_of_le (signed : Bool) {n : ℤ} (hmin : 0 ≤ n) (hmax : n ≤ 2 ^ 63 - 1) :
    (if signed then intmax else uintmax).exactly n = some n := by
  cases signed with
  | true => exact int64_exactly (by omega) hmax
  | false => exact uintmax_exactly hmin (by omega)

/-- The remainder times the numerator is less than the product that the static assertion bounds. -/
theorem Ratio.rest_mul_bounds (ratio : Ratio) (rest : ℤ) :
    (0 ≤ rest → rest < ratio.den → 0 ≤ rest * ratio.num ∧ rest * ratio.num ≤ 2 ^ 63 - 1) ∧
      (rest ≤ 0 → -ratio.den < rest → rest * ratio.num ≤ 0 ∧ -2 ^ 63 ≤ rest * ratio.num) := by
  have hnonneg (n : ℤ) (hn : 0 ≤ n) (hlt : n < ratio.den) :
      0 ≤ n * ratio.num ∧ n * ratio.num ≤ 2 ^ 63 - 1 :=
    ⟨Int.mul_nonneg hn ratio.num_pos.le,
      (Int.mul_le_mul_of_nonneg_right hlt.le ratio.num_pos.le).trans ratio.mul_le⟩
  refine ⟨hnonneg rest, fun hrest hlt => ?_⟩
  have h := hnonneg (-rest) (by omega) (by omega)
  rw [Int.neg_mul] at h
  omega

theorem clamp_eq (n : ℤ) : max int64.min (min int64.max n) =
    if 2 ^ 63 - 1 < n then 2 ^ 63 - 1 else if n < -2 ^ 63 then -2 ^ 63 else n := by
  rw [int64_max, int64_min]
  omega

variable {whole fraction : ℤ}

/-- The sum of two values of the type saturates at the limit of their sign. -/
theorem addFraction_eq (hwhole : -2 ^ 63 ≤ whole ∧ whole ≤ 2 ^ 63 - 1)
    (hfraction : -2 ^ 63 ≤ fraction ∧ fraction ≤ 2 ^ 63 - 1) :
    addFraction whole fraction = some (max int64.min (min int64.max (whole + fraction))) := by
  rw [clamp_eq]
  simp only [addFraction, int64_max, int64_min, Option.bind_eq_bind]
  rcases Int.lt_trichotomy fraction 0 with hneg | rfl | hpos
  · have hbelow : ¬2 ^ 63 - 1 < whole + fraction := by omega
    rw [if_neg (by omega), if_pos hneg, int64_exactly (by omega) (by omega), Option.bind_some,
      if_neg hbelow]
    by_cases hlow : whole < -2 ^ 63 - fraction
    · rw [if_pos hlow, if_pos (by omega)]
      rfl
    · rw [if_neg hlow, if_neg (by omega), int64_exactly (by omega) (by omega)]
  · rw [if_neg (by omega), if_neg (by omega), if_neg (by omega), if_neg (by omega),
      int64_exactly (by omega) (by omega)]
  · have habove : ¬whole + fraction < -2 ^ 63 := by omega
    rw [if_pos hpos, int64_exactly (by omega) (by omega), Option.bind_some, if_neg hpos.not_gt,
      if_neg habove]
    by_cases hhigh : 2 ^ 63 - 1 - fraction < whole
    · rw [if_pos hhigh, if_pos (by omega)]
      rfl
    · rw [if_neg hhigh, if_neg (by omega), int64_exactly (by omega) (by omega)]

/-- Neither part is closer to zero than before it is scaled, and the remainder does not overflow. -/
theorem Ratio.scaled_bounds (ratio : Ratio) {quotient rest : ℤ}
    (hsign : 0 ≤ quotient ∧ 0 ≤ rest ∧ rest < ratio.den ∨
      quotient ≤ 0 ∧ rest ≤ 0 ∧ -ratio.den < rest) :
    0 ≤ quotient ∧ quotient ≤ quotient * ratio.num ∧ 0 ≤ rest * ratio.num ∧
        rest * ratio.num ≤ 2 ^ 63 - 1 ∨
      quotient ≤ 0 ∧ quotient * ratio.num ≤ quotient ∧ rest * ratio.num ≤ 0 ∧
        -2 ^ 63 ≤ rest * ratio.num := by
  obtain ⟨hnonneg, hnonpos⟩ := ratio.rest_mul_bounds rest
  rcases hsign with ⟨h, hrest, hlt⟩ | ⟨h, hrest, hlt⟩
  · have hle := Int.mul_le_mul_of_nonneg_left ratio.num_pos h
    exact Or.inl ⟨h, by omega, hnonneg hrest hlt⟩
  · have hle := Int.mul_le_mul_of_nonpos_left h ratio.num_pos
    exact Or.inr ⟨h, by omega, hnonpos hrest hlt⟩

/-- The tests keep every later operation in range, and let pass what is not clamped. -/
theorem multiplyParts_eq (ratio : Ratio) {quotient rest : ℤ}
    (hsign : 0 ≤ quotient ∧ 0 ≤ rest ∧ rest < ratio.den ∨
      quotient ≤ 0 ∧ rest ≤ 0 ∧ -ratio.den < rest) :
    multiplyParts ratio quotient rest =
      some (max int64.min (min int64.max
        (quotient * ratio.num + (rest * ratio.num).tdiv ratio.den))) := by
  have hmax := max_tdiv_lt_iff ratio.num_pos quotient
  have hmin := lt_min_tdiv_iff ratio.num_pos quotient
  have hscaled := ratio.scaled_bounds hsign
  have hfraction := tmod_bounds ratio.den_pos (rest * ratio.num)
  simp only [multiplyParts, hmax, hmin]
  by_cases hover : 2 ^ 63 - 1 < quotient * ratio.num
  · rw [if_pos hover, clamp_eq, if_pos (by omega)]
    rfl
  by_cases hunder : quotient * ratio.num < -2 ^ 63
  · rw [if_neg hover, if_pos hunder, clamp_eq, if_neg (by omega), if_pos (by omega)]
    rfl
  have hwhole : -2 ^ 63 ≤ quotient * ratio.num ∧ quotient * ratio.num ≤ 2 ^ 63 - 1 := by omega
  rw [if_neg hover, if_neg hunder, int64_exactly (by omega) (by omega),
    ← addFraction_eq hwhole (by omega)]
  simp only [Option.bind_some, Option.bind_eq_bind, int64_exactly hwhole.1 hwhole.2,
    int64_exactly (n := rest * ratio.num) (by omega) (by omega),
    int64_exactly (n := (rest * ratio.num).tdiv ratio.den) (by omega) (by omega)]

/-- **The exact value, truncated toward zero and clamped to the range of nanoseconds**; no operation
leaves its type on the way. -/
theorem saturatingNanoseconds_eq {Rep : IntegerType} (hRep : Rep.width ≤ 64) (ratio : Ratio)
    (period : Rep.Value) :
    saturatingNanoseconds ratio period =
      some (max int64.min (min int64.max ((period.val * ratio.num).tdiv ratio.den))) := by
  have hsign := tmod_bounds ratio.den_pos period.val
  have hden := ratio.den_le_max
  have hdenpos := ratio.den_pos
  have hcount := wide_exactly hRep (n := period.val) period (by omega)
  have hwideden := wide_exactly_of_le Rep.signed hdenpos.le hden
  have hquotient := wide_exactly hRep (n := period.val.tdiv ratio.den) period (by omega)
  have hrest : intmax.exactly (period.val.tmod ratio.den) = some (period.val.tmod ratio.den) :=
    int64_exactly (by omega) (by omega)
  rw [tdiv_split ratio.den_pos ratio.num_pos, ← multiplyParts_eq ratio (by omega)]
  simp only [saturatingNanoseconds, hcount, hwideden, hquotient, hrest, Option.bind_some,
    Option.bind_eq_bind]

/-- The greatest unsigned count, of thirds of a nanosecond. -/
theorem saturatingNanoseconds_eq_thirds :
    @saturatingNanoseconds ⟨false, 64, by decide⟩ ⟨1, 3, by decide, by decide, by decide⟩
        ⟨2 ^ 64 - 1, by decide⟩ =
      some (max int64.min (min int64.max (((2 ^ 64 - 1 : ℤ) * 1).tdiv 3))) :=
  saturatingNanoseconds_eq (by decide) _ _

end Throttle

end NgLog
