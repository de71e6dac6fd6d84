import Mathlib.Algebra.Group.Nat.Defs
import Mathlib.Algebra.Ring.Int.Defs
import NgLog.Support.CompareExchange

/-!
# Rate limits that count occurrences

A call site logs every n-th occurrence, or the first n of them. The macros and the attributes of the
experimental functions count in atomic variables of their own, which several threads may advance at
the same time: the macros in `int` and `unsigned`, the attributes in the type of n.

The position within a period of n occurrences goes from 1 to n and then back to 1. `FirstCount`
stops counting at n, and `CountFirstN` at the number after n.

## Main definitions

* `everyCountThrottle`, `advanceEveryN`, `countEveryN` — every n-th occurrence
* `firstCountThrottle`, `countFirstN`, `countFirstNOccurrence` — the first n occurrences
* `EveryNth`, `AmongFirst` — what the two rate limits are meant to log

## Main results

* `decides_everyCount`, `decides_countEveryN` — one decision about every n-th occurrence
* `decides_firstCount`, `decides_countFirstN` — one decision about the first n
* `rate_limits` — the decisions of every run, in the order in which they are made
-/

namespace NgLog

namespace Throttle

open CompareExchange

/-! ### Integers -/

/-- A standard integer type: whether it is signed, and its number of bits. -/
structure IntegerType where
  signed : Bool
  width : ℕ
  eight_le : 8 ≤ width

namespace IntegerType

/-- `std::numeric_limits<T>::min()`. -/
def min (T : IntegerType) : ℤ := if T.signed then -2 ^ (T.width - 1) else 0

/-- `std::numeric_limits<T>::max()`. -/
def max (T : IntegerType) : ℤ := if T.signed then 2 ^ (T.width - 1) - 1 else 2 ^ T.width - 1

/-- The values of the type. -/
def Holds (T : IntegerType) (n : ℤ) : Prop := T.min ≤ n ∧ n ≤ T.max

instance decidableHolds (T : IntegerType) (n : ℤ) : Decidable (T.Holds n) := instDecidableAnd

/-- `std::make_unsigned_t<T>`. -/
def makeUnsigned (T : IntegerType) : IntegerType := { T with signed := false }

/-- `static_cast<T>`, which keeps the value modulo a power of two. -/
def cast (T : IntegerType) (n : ℤ) : ℤ := if T.signed then n.bmod (2 ^ T.width) else n % 2 ^ T.width

/-- An increment, unless it overflows or wraps around. -/
def increment (T : IntegerType) (n : ℤ) : Option ℤ := if n < T.max then some (n + 1) else none

end IntegerType

/-! ### The code -/

/-- What the attributes decide: the number of the occurrence if they set one, and whether the
message is logged. -/
structure Throttled where
  occurrences : Option ℤ
  admitted : Bool

/-- The part of `EveryCount<T>::Throttle` after the number of the occurrence has been set. -/
def everyCountPosition (T : IntegerType) (n number : ℤ) : Code ℤ ℤ Throttled :=
  if T.signed ∧ n < 0 then .once fun position => (position, ⟨some number, false⟩)
  else if n = 0 then
    .once fun position =>
      if position = 0 then (1, ⟨some number, true⟩) else (position, ⟨some number, false⟩)
  else
    .retry fun expected =>
      (if expected < n then T.increment expected else some 1).map fun next =>
        .exchange next ⟨some number, next = 1⟩

/-- `EveryCount<T>::Throttle`, whose first step is on `occurrences`. -/
def everyCountThrottle (T : IntegerType) (n : ℤ) : Code ℤ ℤ Throttled :=
  .first (fun occurrences => T.cast (occurrences + 1)) fun occurrences =>
    everyCountPosition T n (T.cast (T.makeUnsigned.cast occurrences + 1))

/-- `FirstCount<T>::Throttle`. -/
def firstCountThrottle (T : IntegerType) (n : ℤ) : Code Unit ℤ Throttled :=
  .retry fun current =>
    if current < n then
      (T.increment current).map fun next => .exchange next ⟨some next, true⟩
    else some (.give ⟨none, false⟩)

/-- `AdvanceEveryN`, for a caller that makes something of its result. -/
def advanceEveryN {U R : Type} (int : IntegerType) (n : ℤ) (result : Bool → R) : Code U ℤ R :=
  if n < 0 then .once fun position => (position, result false)
  else if n = 0 then
    .once fun position => if position = 0 then (1, result true) else (position, result false)
  else
    .retry fun current =>
      (if n ≤ current then some 1 else int.increment current).map fun next =>
        .exchange next (result (next = 1))

/-- `Occurrence`. -/
structure Occurrence where
  number : ℤ
  skipped : Bool

/-- `CountEveryN`, whose first step is on `occurrences`. -/
def countEveryN (int : IntegerType) (n : ℤ) : Code ℤ ℤ Occurrence :=
  .first (fun occurrences => int.makeUnsigned.cast (occurrences + 1)) fun occurrences =>
    advanceEveryN int n fun advanced => ⟨int.makeUnsigned.cast (occurrences + 1), !advanced⟩

/-- `CountFirstN`, for a caller that makes something of its result. -/
def countFirstN {R : Type} (int : IntegerType) (n : ℤ) (result : ℤ → R) : Code Unit ℤ R :=
  let limit := if 0 < n then int.makeUnsigned.cast n else 0
  .retry fun current =>
    (int.makeUnsigned.increment current).map fun next =>
      if current ≤ limit then .exchange next (result next) else .give (result next)

/-- `CountFirstNOccurrence`. -/
def countFirstNOccurrence (int : IntegerType) (n : ℤ) : Code Unit ℤ Occurrence :=
  countFirstN int n fun number => ⟨number, n ≤ 0 || int.makeUnsigned.cast n < number⟩

/-! ### What is logged -/

/-- The occurrence after `k` others starts a period of `n` of them, or is the only one. -/
def EveryNth (n : ℤ) (k : ℕ) : Prop := 0 < n ∧ n ∣ k ∨ n = 0 ∧ k = 0

/-- The occurrence after `k` others is one of the first `n`. -/
def AmongFirst (n : ℤ) (k : ℕ) : Prop := (k : ℤ) < n

instance EveryNth.decidable (n : ℤ) (k : ℕ) : Decidable (EveryNth n k) := instDecidableOr

instance AmongFirst.decidable (n : ℤ) (k : ℕ) : Decidable (AmongFirst n k) :=
  inferInstanceAs (Decidable ((k : ℤ) < n))

/-! ### Ranges -/

section Ranges

variable {T : IntegerType} {n m : ℤ}

theorem two_pow_width (T : IntegerType) : (2 : ℤ) ^ T.width = 2 * 2 ^ (T.width - 1) := by
  have height := T.eight_le
  rw [← pow_succ', Nat.sub_add_cancel (by omega)]

theorem two_pow_width_ge (T : IntegerType) : 128 ≤ (2 : ℤ) ^ (T.width - 1) := by
  have height := T.eight_le
  obtain ⟨k, hk⟩ := Nat.exists_eq_add_of_le (show 7 ≤ T.width - 1 by omega)
  have hpos : 0 < (2 : ℤ) ^ k := Int.pow_pos (by decide)
  rw [hk, pow_add]
  omega

theorem nonneg_of_not_signed (hn : T.Holds n) (h : T.signed = false) : 0 ≤ n := by
  have hmin := hn.1
  rwa [IntegerType.min, h, if_neg Bool.false_ne_true] at hmin

theorem increment_of_lt (hn : T.Holds n) (h : m < n) : T.increment m = some (m + 1) :=
  if_pos (Int.lt_of_lt_of_le h hn.2)

theorem makeUnsigned_max (T : IntegerType) : T.makeUnsigned.max = 2 * 2 ^ (T.width - 1) - 1 := by
  rw [← two_pow_width]
  rfl

/-- A positive number is kept by the conversion to the unsigned type. -/
theorem makeUnsigned_cast_of_pos (hn : T.Holds n) (hpos : 0 < n) : T.makeUnsigned.cast n = n := by
  have hmax := hn.2
  have htwo := two_pow_width T
  have hge := two_pow_width_ge T
  refine Int.emod_eq_of_lt (Int.le_of_lt hpos) ?_
  rw [IntegerType.max] at hmax
  change n < 2 ^ T.width
  split_ifs at hmax <;> omega

end Ranges

/-! ### Every n-th occurrence -/

/-- The position after some occurrences. -/
def positionAfter (n : ℤ) : ℕ → ℤ
  | 0 => 0
  | k + 1 => if positionAfter n k < n then positionAfter n k + 1 else 1

section Position

variable {n : ℤ}

theorem positionAfter_bounds (hn : 0 ≤ n) (k : ℕ) :
    0 ≤ positionAfter n k ∧ positionAfter n k ≤ max n 1 ∧ (k ≠ 0 → 1 ≤ positionAfter n k) := by
  induction k with
  | zero =>
    rw [positionAfter]
    exact ⟨Int.le_refl 0, by omega, fun h => absurd rfl h⟩
  | succ k ih =>
    rw [positionAfter]
    split <;> omega

/-- The position is the number of occurrences, up to whole periods. -/
theorem dvd_sub_positionAfter (hn : 0 < n) (k : ℕ) : n ∣ (k : ℤ) - positionAfter n k := by
  induction k with
  | zero => exact ⟨0, by simp [positionAfter]⟩
  | succ k ih =>
    rw [positionAfter]
    split
    · rwa [Int.natCast_succ, Int.add_sub_add_right]
    · have hbounds := positionAfter_bounds (Int.le_of_lt hn) k
      have hend : positionAfter n k = n := by omega
      rw [hend] at ih
      have hperiod := Int.dvd_add ih (Int.dvd_refl n)
      have hsucc : ((k + 1 : ℕ) : ℤ) - 1 = k := by omega
      rwa [Int.sub_add_cancel, ← hsucc] at hperiod

/-- A period starts after a multiple of `n` occurrences. -/
theorem positionAfter_succ_eq_one_iff (hn : 0 < n) (k : ℕ) :
    positionAfter n (k + 1) = 1 ↔ n ∣ (k : ℤ) := by
  have hdvd := dvd_sub_positionAfter hn (k + 1)
  have hbounds := positionAfter_bounds (Int.le_of_lt hn) (k + 1)
  have hone := hbounds.2.2 (Nat.succ_ne_zero k)
  constructor
  · intro h
    rw [h] at hdvd
    simpa using hdvd
  · intro h
    have hdiff : n ∣ positionAfter n (k + 1) - 1 := by
      have hsub := Int.dvd_sub h hdvd
      have heq : (k : ℤ) - ((k + 1 : ℕ) - positionAfter n (k + 1)) =
          positionAfter n (k + 1) - 1 := by omega
      rwa [heq] at hsub
    have hzero := Int.eq_zero_of_dvd_of_nonneg_of_lt (by omega) (by omega) hdiff
    omega

end Position

/-- What holds of the position and the decisions. -/
def CountsPeriods {A R : Type} (n : ℤ) (admitted : R → Bool) (position : ℤ)
    (decided : List (A × R)) : Prop :=
  position = (if n < 0 then 0 else positionAfter n decided.length) ∧
    Numbered (fun k result => admitted result = true ↔ EveryNth n k) decided

section EveryNth

variable {A U R : Type} {T : IntegerType} {n : ℤ} {admitted : R → Bool}

theorem countsPeriods_nil (n : ℤ) (admitted : R → Bool) :
    CountsPeriods n admitted 0 ([] : List (A × R)) := by
  refine ⟨?_, numbered_nil _⟩
  split <;> rfl

theorem CountsPeriods.concat {position next : ℤ} {decided : List (A × R)} {result : R}
    (h : CountsPeriods n admitted position decided)
    (hnext : next = if n < 0 then 0 else positionAfter n (decided.length + 1))
    (hresult : admitted result = true ↔ EveryNth n decided.length) (call : A) :
    CountsPeriods n admitted next (decided ++ [(call, result)]) :=
  ⟨by rw [List.length_append, List.length_singleton, hnext], h.2.concat hresult call⟩

/-- The next position is computed without overflow, for every integer type. -/
theorem next_position (hn : T.Holds n) (position : ℤ) :
    (if n ≤ position then some 1 else T.increment position) =
      some (if position < n then position + 1 else 1) := by
  by_cases h : position < n
  · rw [if_neg (Int.not_le.mpr h), if_pos h, increment_of_lt hn h]
  · rw [if_pos (Int.not_lt.mp h), if_neg h]

/-- One decision about every n-th occurrence. -/
theorem decides_advanceEveryN (hn : T.Holds n) {result : Bool → R}
    (hadmitted : ∀ b, admitted (result b) = b) (call : A) :
    Decides (CountsPeriods n admitted) call (advanceEveryN T n result : Code U ℤ R) := by
  rw [advanceEveryN]
  split_ifs with hneg hzero
  · intro position decided h
    have hposition := h.1
    rw [if_pos hneg] at hposition
    refine h.concat ?_ ?_ call
    · rw [if_pos hneg, hposition]
    · rw [hadmitted]
      refine iff_of_false Bool.false_ne_true fun hnth => ?_
      rcases hnth with ⟨hpos, -⟩ | ⟨hz, -⟩ <;> omega
  -- a period of zero: the position leaves zero with the first decision
  · subst hzero
    intro position decided h
    have hposition := h.1
    rw [if_neg (Int.lt_irrefl 0)] at hposition
    have hbounds := positionAfter_bounds (Int.le_refl 0) decided.length
    have hnext : positionAfter 0 (decided.length + 1) = 1 := if_neg (by omega)
    have hfirst : position = 0 ↔ EveryNth 0 decided.length := by
      rw [hposition, EveryNth]
      constructor
      · intro hz
        exact .inr ⟨rfl, by_contra fun hne => by have := hbounds.2.2 hne; omega⟩
      · rintro (⟨hpos, -⟩ | ⟨-, hlength⟩)
        · exact absurd hpos (Int.lt_irrefl 0)
        · rw [hlength]
          rfl
    dsimp only
    split_ifs with hp
    · refine h.concat ?_ ?_ call
      · rw [if_neg (Int.lt_irrefl 0), hnext]
      · rw [hadmitted]
        exact iff_of_true rfl (hfirst.mp hp)
    · refine h.concat ?_ ?_ call
      · rw [if_neg (Int.lt_irrefl 0), hnext, hposition]
        have hne : decided.length ≠ 0 := fun hlength => hp (by rw [hposition, hlength]; rfl)
        have hone := hbounds.2.2 hne
        omega
      · rw [hadmitted]
        exact iff_of_false Bool.false_ne_true (mt hfirst.mpr hp)
  · have hpos : 0 < n := by omega
    intro position decided h
    have hposition := h.1
    rw [if_neg hneg] at hposition
    have hnext := congrArg (Option.map fun next => Attempt.exchange next (result (next = 1)))
      (next_position hn position)
    refine ⟨_, hnext, ?_⟩
    refine h.concat ?_ ?_ call
    · rw [if_neg hneg, hposition]
      rfl
    · dsimp only [Attempt.commit]
      rw [hadmitted, decide_eq_true_iff, hposition]
      rw [EveryNth, ← positionAfter_succ_eq_one_iff hpos]
      exact ⟨fun h => .inl ⟨hpos, h⟩, fun h => (h.resolve_right fun h => hzero h.1).2⟩

/-- The attribute takes the steps of the macro, in its own type. -/
theorem everyCountPosition_eq (hn : T.Holds n) (number : ℤ) :
    everyCountPosition T n number = advanceEveryN T n fun b => ⟨some number, b⟩ := by
  have hsigned : (T.signed = true ∧ n < 0) ↔ n < 0 := by
    refine and_iff_right_of_imp fun hneg => ?_
    by_contra h
    have hnonneg := nonneg_of_not_signed hn (Bool.not_eq_true _ ▸ h)
    omega
  rw [everyCountPosition, advanceEveryN]
  simp only [hsigned, ← Int.not_lt, ite_not]

theorem decides_everyCount (hn : T.Holds n) (call : A) :
    Decides (CountsPeriods n Throttled.admitted) call (everyCountThrottle T n) := by
  intro occurrences
  dsimp only
  rw [everyCountPosition_eq hn]
  exact decides_advanceEveryN hn (fun _ => rfl) call

theorem decides_countEveryN {int : IntegerType} (hn : int.Holds n) (call : A) :
    Decides (CountsPeriods n fun occurrence => !occurrence.skipped) call (countEveryN int n) := by
  intro occurrences
  refine decides_advanceEveryN hn (fun b => ?_) call
  exact Bool.not_not b

end EveryNth

/-! ### The first n occurrences -/

/-- What holds of a counter that stops at a limit and of the decisions. -/
def CountsUpTo {A R : Type} (limit : ℤ) (P : ℕ → R → Prop) (current : ℤ)
    (decided : List (A × R)) : Prop :=
  current = min (decided.length : ℤ) limit ∧ Numbered P decided

section First

variable {A R : Type} {T : IntegerType} {n : ℤ}

/-- The result of `FirstCount<T>::Throttle` after `k` others. -/
def firstResult (n : ℤ) (k : ℕ) : Throttled :=
  if AmongFirst n k then ⟨some (k + 1), true⟩ else ⟨none, false⟩

/-- One decision of the attribute about the first n occurrences. -/
theorem decides_firstCount (hn : T.Holds n) (call : A) :
    Decides (CountsUpTo (max n 0) fun k result => result = firstResult n k) call
      (firstCountThrottle T n) := by
  intro current decided h
  have hcurrent := h.1
  dsimp only
  by_cases hlt : current < n
  · have hamong : AmongFirst n decided.length := by
      rw [AmongFirst]
      omega
    have hequal : current = decided.length := by omega
    refine ⟨.exchange (current + 1) ⟨some (current + 1), true⟩, ?_, ?_, h.2.concat ?_ call⟩
    · rw [if_pos hlt, increment_of_lt hn hlt, Option.map_some]
    · rw [List.length_append, List.length_singleton]
      dsimp only [Attempt.commit]
      omega
    · rw [firstResult, if_pos hamong, hequal]
      rfl
  · have hamong : ¬AmongFirst n decided.length := by
      rw [AmongFirst]
      omega
    refine ⟨.give ⟨none, false⟩, by rw [if_neg hlt], ?_, h.2.concat ?_ call⟩
    · rw [List.length_append, List.length_singleton]
      dsimp only [Attempt.commit]
      omega
    · rw [firstResult, if_neg hamong]
      rfl

/-- The number that `CountFirstN` gives after `k` others. -/
def firstNumber (n : ℤ) (k : ℕ) : ℤ := min (k : ℤ) (max n 0 + 1) + 1

/-- One decision of the macro about the first n occurrences. -/
theorem decides_countFirstN {int : IntegerType} (hint : int.signed = true) (hn : int.Holds n)
    (result : ℤ → R) (call : A) :
    Decides (CountsUpTo (max n 0 + 1) fun k r => r = result (firstNumber n k)) call
      (countFirstN int n result) := by
  intro current decided h
  have hcurrent := h.1
  have hlimit : (if 0 < n then int.makeUnsigned.cast n else 0) = max n 0 := by
    split_ifs with hpos
    · rw [makeUnsigned_cast_of_pos hn hpos]
      omega
    · omega
  have hmax : max n 0 + 1 < int.makeUnsigned.max := by
    have hge := two_pow_width_ge int
    have hnmax := hn.2
    rw [IntegerType.max, hint, if_pos rfl] at hnmax
    rw [makeUnsigned_max]
    omega
  have hincrement : int.makeUnsigned.increment current = some (current + 1) := if_pos (by omega)
  dsimp only
  rw [hincrement, Option.map_some, hlimit]
  by_cases hle : current ≤ max n 0
  · refine ⟨.exchange (current + 1) (result (current + 1)), by rw [if_pos hle], ?_,
      h.2.concat ?_ call⟩
    · rw [List.length_append, List.length_singleton]
      dsimp only [Attempt.commit]
      omega
    · dsimp only [Attempt.commit]
      rw [firstNumber, hcurrent]
  · refine ⟨.give (result (current + 1)), by rw [if_neg hle], ?_, h.2.concat ?_ call⟩
    · rw [List.length_append, List.length_singleton]
      dsimp only [Attempt.commit]
      omega
    · dsimp only [Attempt.commit]
      rw [firstNumber, hcurrent]

/-- Whether the macro logs, and with which number. -/
theorem occurrence_spec {int : IntegerType} (hn : int.Holds n) (k : ℕ) {occurrence : Occurrence}
    (h : occurrence = ⟨firstNumber n k,
      n ≤ 0 || int.makeUnsigned.cast n < firstNumber n k⟩) :
    (occurrence.skipped = false ↔ AmongFirst n k) ∧
      (occurrence.skipped = false → occurrence.number = k + 1) := by
  subst h
  rw [AmongFirst, firstNumber]
  dsimp only
  by_cases hpos : 0 < n
  · rw [makeUnsigned_cast_of_pos hn hpos, Bool.or_eq_false_iff, decide_eq_false_iff_not,
      decide_eq_false_iff_not]
    omega
  · rw [Bool.or_eq_false_iff, decide_eq_false_iff_not]
    omega

end First

/-! ### All runs -/

/-- A state after some steps of threads at one call site. -/
def Reaches {T U R : Type} [DecidableEq T] (code : Code U ℤ R) (counter : U)
    (s : State T Unit U ℤ R) : Prop :=
  ∃ events, Transition.run (step fun _ => code) (init counter 0) events = some s

theorem Reaches.decides {T U R : Type} [DecidableEq T] {code : Code U ℤ R} {counter : U}
    {s : State T Unit U ℤ R} (h : Reaches code counter s) {I : ℤ → List (Unit × R) → Prop}
    (hinit : I 0 [])
    (hcode : ∀ call, Decides I call code) : I s.value s.decided ∧ s.failed = false := by
  obtain ⟨events, hrun⟩ := h
  exact run_decides (P := fun _ => True) hinit (fun call _ => hcode call)
    (fun _ _ _ => trivial) hrun

/-- What the state of a rate limit shows about every n-th occurrence. -/
structure LogsEveryNth {T U R : Type} (n : ℤ) (admitted : R → Bool) (s : State T Unit U ℤ R) :
    Prop where
  failed : s.failed = false
  nonneg : 0 ≤ s.value
  le_max : s.value ≤ max n 1
  decided : Numbered (fun k result => admitted result = true ↔ EveryNth n k) s.decided

theorem Reaches.logsEveryNth {T U R : Type} [DecidableEq T] {code : Code U ℤ R} {counter : U}
    {s : State T Unit U ℤ R} (h : Reaches code counter s) {n : ℤ} {admitted : R → Bool}
    (hcode : ∀ call : Unit, Decides (CountsPeriods n admitted) call code) :
    LogsEveryNth n admitted s := by
  obtain ⟨⟨hvalue, hdecided⟩, hfailed⟩ := h.decides (countsPeriods_nil n admitted) hcode
  refine ⟨hfailed, ?_, ?_, hdecided⟩ <;> rw [hvalue] <;> split_ifs with hneg
  · exact Int.le_refl 0
  · exact (positionAfter_bounds (by omega) _).1
  · omega
  · exact (positionAfter_bounds (by omega) _).2.1

/-- The attribute and the macro decide the same about each occurrence. -/
def Agree {T U : Type} (s : State T Unit U ℤ Throttled) (s' : State T Unit U ℤ Occurrence) : Prop :=
  ∀ (k : ℕ) (result : Throttled) (occurrence : Occurrence), s.decided[k]? = some ((), result) →
    s'.decided[k]? = some ((), occurrence) → (result.admitted = true ↔ occurrence.skipped = false)

theorem countsUpTo_nil {A R : Type} {limit : ℤ} (h : 0 ≤ limit) (P : ℕ → R → Prop) :
    CountsUpTo limit P 0 ([] : List (A × R)) :=
  ⟨(Int.min_eq_left h).symm, numbered_nil P⟩

section RateLimits

variable {T : Type} [DecidableEq T] {type int : IntegerType} {n : ℤ}

theorem logsEveryNth_everyCount (hn : type.Holds n) {s : State T Unit ℤ ℤ Throttled}
    (h : Reaches (everyCountThrottle type n) 0 s) : LogsEveryNth n Throttled.admitted s :=
  h.logsEveryNth (decides_everyCount hn)

theorem logsEveryNth_countEveryN (hn : int.Holds n) {s : State T Unit ℤ ℤ Occurrence}
    (h : Reaches (countEveryN int n) 0 s) :
    LogsEveryNth n (fun occurrence => !occurrence.skipped) s :=
  h.logsEveryNth (decides_countEveryN hn)

theorem logsFirst_firstCount (hn : type.Holds n) {s : State T Unit Unit ℤ Throttled}
    (h : Reaches (firstCountThrottle type n) () s) :
    s.failed = false ∧ Numbered (fun k result => result = firstResult n k) s.decided := by
  obtain ⟨⟨-, hdecided⟩, hfailed⟩ :=
    h.decides (countsUpTo_nil (by omega) _) (decides_firstCount hn)
  exact ⟨hfailed, hdecided⟩

theorem logsFirst_countFirstN (hint : int.signed = true) (hn : int.Holds n)
    {s : State T Unit Unit ℤ Occurrence} (h : Reaches (countFirstNOccurrence int n) () s) :
    s.failed = false ∧ Numbered (fun k occurrence =>
      (occurrence.skipped = false ↔ AmongFirst n k) ∧
        (occurrence.skipped = false → occurrence.number = (k : ℤ) + 1)) s.decided := by
  obtain ⟨⟨-, hdecided⟩, hfailed⟩ :=
    h.decides (countsUpTo_nil (by omega) _) (decides_countFirstN hint hn _)
  exact ⟨hfailed, fun k call occurrence hk => occurrence_spec hn k (hdecided k call occurrence hk)⟩

/-- For every standard integer type, every `n` of it, any number of threads and every order of their
steps: nothing overflows, the positions stay in their range, the occurrences that are logged are
every n-th one, or the first n with the numbers from 1 to n, and the attributes decide as the macros
do. -/
theorem rate_limits (type int : IntegerType) (hint : int.signed = true) (n : ℤ) :
    (type.Holds n → ∀ s : State T Unit ℤ ℤ Throttled, Reaches (everyCountThrottle type n) 0 s →
      LogsEveryNth n Throttled.admitted s) ∧
    (int.Holds n →
      (∀ s : State T Unit Unit ℤ Bool, Reaches (advanceEveryN int n id) () s →
        LogsEveryNth n id s) ∧
      ∀ s : State T Unit ℤ ℤ Occurrence, Reaches (countEveryN int n) 0 s →
        LogsEveryNth n (fun occurrence => !occurrence.skipped) s) ∧
    (type.Holds n → ∀ s : State T Unit Unit ℤ Throttled,
      Reaches (firstCountThrottle type n) () s → s.failed = false ∧
        Numbered (fun k result => result =
          if (k : ℤ) < n then ⟨some (k + 1), true⟩ else ⟨none, false⟩) s.decided) ∧
    (int.Holds n → ∀ s : State T Unit Unit ℤ Occurrence,
      Reaches (countFirstNOccurrence int n) () s → s.failed = false ∧
        Numbered (fun k occurrence => (occurrence.skipped = false ↔ (k : ℤ) < n) ∧
          (occurrence.skipped = false → occurrence.number = (k : ℤ) + 1)) s.decided) ∧
    (type.Holds n → int.Holds n →
      (∀ (s : State T Unit ℤ ℤ Throttled) (s' : State T Unit ℤ ℤ Occurrence),
        Reaches (everyCountThrottle type n) 0 s → Reaches (countEveryN int n) 0 s' → Agree s s') ∧
      ∀ (s : State T Unit Unit ℤ Throttled) (s' : State T Unit Unit ℤ Occurrence),
        Reaches (firstCountThrottle type n) () s → Reaches (countFirstNOccurrence int n) () s' →
          Agree s s') := by
  refine ⟨fun hn s h => logsEveryNth_everyCount hn h,
    fun hn => ⟨fun s h => h.logsEveryNth (decides_advanceEveryN hn fun _ => rfl),
      fun s h => logsEveryNth_countEveryN hn h⟩,
    fun hn s h => logsFirst_firstCount hn h, fun hn s h => logsFirst_countFirstN hint hn h,
    fun htype hn => ⟨fun s s' h h' k result occurrence hk hk' => ?_,
      fun s s' h h' k result occurrence hk hk' => ?_⟩⟩
  · have hattribute : result.admitted = true ↔ EveryNth n k :=
      (logsEveryNth_everyCount htype h).decided k () result hk
    have hmacro : (!occurrence.skipped) = true ↔ EveryNth n k :=
      (logsEveryNth_countEveryN hn h').decided k () occurrence hk'
    rw [hattribute, ← hmacro, Bool.not_eq_true']
  · have hattribute : result = firstResult n k := (logsFirst_firstCount htype h).2 k () result hk
    have hcount := (logsFirst_countFirstN hint hn h').2 k () occurrence hk'
    rw [hcount.1, hattribute, firstResult]
    by_cases hamong : AmongFirst n k
    · rw [if_pos hamong]
      exact iff_of_true rfl hamong
    · rw [if_neg hamong]
      exact iff_of_false Bool.false_ne_true hamong

/-- Two occurrences of a site that logs the first one, in `signed char` and in an `int` of 32
bits. -/
theorem rate_limits_first : ∃ s : State Unit Unit Unit ℤ Throttled,
    Reaches (firstCountThrottle ⟨true, 8, by decide⟩ 1) () s ∧
      s.decided = [((), ⟨some 1, true⟩), ((), ⟨none, false⟩)] ∧ s.failed = false := by
  have hreaches : ∃ s : State Unit Unit Unit ℤ Throttled,
      Reaches (firstCountThrottle ⟨true, 8, by decide⟩ 1) () s ∧
        s.decided = [((), ⟨some 1, true⟩), ((), ⟨none, false⟩)] :=
    ⟨_, ⟨[.call () (), .step () false, .step () true, .step () false, .call () (),
      .step () false], rfl⟩, rfl⟩
  obtain ⟨s, hs, hdecided⟩ := hreaches
  have hlimits := rate_limits (T := Unit) ⟨true, 8, by decide⟩ ⟨true, 32, by decide⟩ rfl 1
  exact ⟨s, hs, hdecided, (hlimits.2.2.1 (by decide) s hs).1⟩

end RateLimits

end Throttle

end NgLog
