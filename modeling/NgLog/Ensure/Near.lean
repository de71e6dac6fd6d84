import Mathlib.Algebra.Order.Group.Int
import Mathlib.Algebra.Order.Group.Unbundled.Abs
import NgLog.Throttle.Counting

/-!
# Integers within a margin of each other

`IntegersNear` takes the distance of two integers of any signedness and width by a subtraction in
`std::uintmax_t`, which wraps around. `IntegerDistance` tells the one case in which the distance may
be too large for that type, a first operand that is not negative and a second one that is, and
infers from a result below the first operand that it was.

The comparisons of the standard library are by value, whatever the types of the operands.

## Main definitions

* `integerDistance`, `integersNear`

## Main results

* `integerDistance_eq` — the distance, unless it exceeds the range
* `integersNear_iff` — the comparison is that of the mathematical integers
-/

namespace NgLog

open Throttle

/-- The values of an integer type. -/
def Throttle.IntegerType.Value (T : IntegerType) : Type := {n : ℤ // T.Holds n}

namespace Ensure

theorem eight_le_sixtyFour : 8 ≤ 64 := by decide

/-- `std::uintmax_t`. -/
def uintmax : IntegerType := ⟨false, 64, eight_le_sixtyFour⟩

variable {T U M : IntegerType}

/-- `IntegerDistance`. -/
def integerDistance (high : T.Value) (low : U.Value) : Option ℤ :=
  let distance := uintmax.cast (uintmax.cast high.val - uintmax.cast low.val)
  if 0 ≤ high.val ∧ low.val < 0 ∧ distance < uintmax.cast high.val then none else some distance

/-- `IntegersNear`. -/
def integersNear (value : T.Value) (target : U.Value) (margin : M.Value) : Bool :=
  let distance :=
    if target.val ≤ value.val then integerDistance value target else integerDistance target value
  match distance with
  | some distance => distance ≤ margin.val
  | none => false

/-! ### Ranges -/

theorem uintmax_cast (n : ℤ) : uintmax.cast n = n % 2 ^ 64 := by
  simp [uintmax, IntegerType.cast]

/-- A power of two below the widest one. -/
theorem two_pow_le {m n : ℕ} (h : m ≤ n) : (2 : ℤ) ^ m ≤ 2 ^ n := by
  have hpow := Nat.pow_le_pow_right (show 0 < 2 by decide) h
  exact_mod_cast hpow

/-- What an integer of up to 64 bits is at least, and at most. -/
theorem IntegerType.bounds (n : T.Value) (hT : T.width ≤ 64) :
    -2 ^ 63 ≤ n.val ∧ n.val < 2 ^ 64 := by
  obtain ⟨n, hmin, hmax⟩ := n
  have hwide := two_pow_le hT
  have hhalf := two_pow_le (show T.width - 1 ≤ 63 by omega)
  rw [IntegerType.min] at hmin
  rw [IntegerType.max] at hmax
  split at hmin
  · next hsigned =>
    rw [if_pos hsigned] at hmax
    constructor <;> simp only <;> omega
  · next hsigned =>
    rw [if_neg hsigned] at hmax
    constructor <;> simp only <;> omega

/-! ### The distance -/

/-- The distance, unless it exceeds the range of `std::uintmax_t`. Only then does it wrap around to
less than the first operand, since what is added to that is less than the range. -/
theorem integerDistance_eq (hT : T.width ≤ 64) (hU : U.width ≤ 64) (high : T.Value) (low : U.Value)
    (h : low.val ≤ high.val) :
    integerDistance high low =
      if high.val - low.val < 2 ^ 64 then some (high.val - low.val) else none := by
  obtain ⟨hhigh, hhigh'⟩ := IntegerType.bounds high hT
  obtain ⟨hlow, hlow'⟩ := IntegerType.bounds low hU
  have hdistance : uintmax.cast (uintmax.cast high.val - uintmax.cast low.val) =
      (high.val - low.val) % 2 ^ 64 := by
    rw [uintmax_cast, uintmax_cast, uintmax_cast, Int.emod_sub_emod, Int.sub_emod_emod]
  simp only [integerDistance, hdistance]
  by_cases hfits : high.val - low.val < 2 ^ 64
  · rw [if_pos hfits, Int.emod_eq_of_lt (by omega) hfits, if_neg]
    rintro ⟨hnonneg, hneg, hlt⟩
    rw [uintmax_cast, Int.emod_eq_of_lt hnonneg hhigh'] at hlt
    omega
  · have hnonneg : 0 ≤ high.val := by omega
    rw [if_neg hfits, if_pos]
    refine ⟨hnonneg, by omega, ?_⟩
    rw [uintmax_cast, Int.emod_eq_of_lt hnonneg hhigh']
    omega

/-- A distance that exceeds the range also exceeds every margin. -/
theorem distance_le_iff (hT : T.width ≤ 64) (hU : U.width ≤ 64) (hM : M.width ≤ 64) (high : T.Value)
    (low : U.Value) (margin : M.Value) (h : low.val ≤ high.val) :
    (∃ distance, integerDistance high low = some distance ∧ distance ≤ margin.val) ↔
      high.val - low.val ≤ margin.val := by
  obtain ⟨_, hmargin⟩ := IntegerType.bounds margin hM
  rw [integerDistance_eq hT hU high low h]
  constructor
  · rintro ⟨distance, heq, hle⟩
    split at heq
    · obtain rfl := Option.some.inj heq
      exact hle
    · exact absurd heq nofun
  · intro hle
    exact ⟨_, if_pos (by omega), hle⟩

/-- **`IntegersNear` compares the distance of the mathematical integers with the margin**, for
operands of every signedness and width. -/
theorem integersNear_iff (hT : T.width ≤ 64) (hU : U.width ≤ 64) (hM : M.width ≤ 64)
    (value : T.Value) (target : U.Value) (margin : M.Value) :
    integersNear value target margin = true ↔ |value.val - target.val| ≤ margin.val := by
  have hsome (distance : Option ℤ) :
      (match distance with
        | some distance => decide (distance ≤ margin.val)
        | none => false) = true ↔ ∃ d, distance = some d ∧ d ≤ margin.val := by
    cases distance <;> simp
  rw [integersNear, hsome]
  by_cases h : target.val ≤ value.val
  · rw [if_pos h, distance_le_iff hT hU hM value target margin h, abs_of_nonneg (by omega)]
  · rw [if_neg h, distance_le_iff hU hT hM target value margin (by omega), abs_of_neg (by omega),
      Int.neg_sub]

/-- At the extremes of two types. -/
theorem integersNear_iff_extremes :
    integersNear (T := ⟨false, 64, by decide⟩) (U := ⟨true, 64, by decide⟩)
    (M := ⟨true, 8, by decide⟩)
        ⟨2 ^ 64 - 1, by decide⟩ ⟨-2 ^ 63, by decide⟩ ⟨127, by decide⟩ = true ↔
      |(2 ^ 64 - 1 : ℤ) - -2 ^ 63| ≤ 127 :=
  integersNear_iff (by decide) (by decide) (by decide) _ _ _

end Ensure

end NgLog
