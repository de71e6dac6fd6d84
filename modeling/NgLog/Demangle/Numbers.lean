import Mathlib.Data.List.TakeWhile
import NgLog.Demangle.Declining
import NgLog.Support.Delimiters
import NgLog.Support.Numerals

/-!
# Numbers of mangled names

`ParseNumber` accumulates the digits in a `std::uint64_t`. Before it appends one it compares with
the limit of the sign, so that a run of digits is given up at the first digit that leaves the range
of `std::int64_t`, and what it has accumulated is never more than the limit.

`parseNumber` computes with natural numbers. `scanUint64` and `signedNumber` are its operations in
the types of the source, where a result out of range is nothing.

## Main definitions

* `IsRun`, `IsNumber` — the digits and the numbers of the grammar
* `BeginsWithNumber` — a number and the end of its digits
* `scanUint64`, `signedNumber` — the operations in their types

## Main results

* `scanNumber_eq` — the loop over the digits
* `scanUint64_eq`, `signedNumber_eq` — no result is out of range
* `parseNumber_eq_some_iff`, `parseDiscriminator_iff` — what is accepted
* `numbers_exact` — the numbers and the discriminators
-/

namespace NgLog

namespace Demangle

open Backtracking (Machine)
open Backtracking.Parser (Declines and_apply and_eq_false_iff and_eq_true_iff attempt_eq_true_iff
  bind_eq_ok declines_of_fails or_eq_true_iff)

/-! ### The numbers of the grammar -/

/-- Digits, at least one, and no zero before others. -/
structure IsRun (digits : List Byte) : Prop where
  ne_nil : digits ≠ []
  all_digits : ∀ c ∈ digits, isDigit c = true
  zero_alone : digits.head? = some '0'.toUInt8 → digits = ['0'.toUInt8]

def numberText (negative : Bool) (digits : List Byte) : List Byte :=
  if negative then 'n'.toUInt8 :: digits else digits

def numberValue (negative : Bool) (digits : List Byte) : ℤ :=
  if negative then -(Numeral.value 10 digits : ℤ) else Numeral.value 10 digits

/-- `<number> ::= [n] <non-negative decimal integer>` with its value, in the range of
`std::int64_t`. -/
def IsNumber (text : List Byte) (value : ℤ) : Prop :=
  ∃ negative digits, IsRun digits ∧ text = numberText negative digits ∧
    value = numberValue negative digits ∧ -2 ^ 63 ≤ value ∧ value ≤ 2 ^ 63 - 1

/-- A number, with all of the digits. -/
def BeginsWithNumber (input text : List Byte) (value : ℤ) : Prop :=
  IsNumber text value ∧ ∃ after, input = text ++ after ∧ ∀ c ∈ after.head?, isDigit c = false

/-- `<discriminator>`: `_` and a number below 10, or `__`, a number of at least 10 and `_`. -/
inductive BeginsWithDiscriminator (input : List Byte) : List Byte → Prop
  | short {behind number : List Byte} {value : ℤ} (hinput : input = bytes "_" ++ behind)
      (hnumber : BeginsWithNumber behind number value) (hnonneg : 0 ≤ value) (hlt : value < 10) :
      BeginsWithDiscriminator input (bytes "_" ++ number)
  | long {number after : List Byte} {value : ℤ}
      (hinput : input = bytes "__" ++ number ++ bytes "_" ++ after)
      (hnumber : IsNumber number value) (hle : 10 ≤ value) :
      BeginsWithDiscriminator input (bytes "__" ++ number ++ bytes "_")

/-! ### The operations in their types -/

/-- A result of type `std::uint64_t`, unless it is out of range. -/
def uint64 (n : ℕ) : Option ℕ := if n < 2 ^ 64 then some n else none

/-- A result of type `std::int64_t`, unless it is out of range. -/
def int64 (n : ℤ) : Option ℤ := if -2 ^ 63 ≤ n ∧ n ≤ 2 ^ 63 - 1 then some n else none

/-- The digit loop of `ParseNumber`, or nothing at all if a result is out of range. -/
def scanUint64 (limit : ℕ) : List Byte → ℕ → ℕ → Option (Option (ℕ × ℕ))
  | [], number, count => some (some (number, count))
  | c :: p, number, count =>
    if isDigit c then do
      let digit ← uint64 (c.toNat - '0'.toNat)
      if number > limit / 10 || (number == limit / 10 && digit > limit % 10) then return none
      let product ← uint64 (number * 10)
      let number ← uint64 (product + digit)
      scanUint64 limit p number (count + 1)
    else some (some (number, count))

/-- The limit of the sign. -/
def numberLimit (negative : Bool) : ℕ := if negative then kMaxNegative else kMaxPositive

/-- The value that `ParseNumber` stores. -/
def signedNumber (negative : Bool) (number : ℕ) : Option ℤ :=
  if negative then
    if number = kMaxNegative then some (-2 ^ 63)
    else do
      let magnitude ← int64 number
      int64 (-magnitude)
  else int64 number

/-! ### The loop over the digits -/

variable {limit number count : ℕ} {p : List Byte} {c : Byte}

theorem isDigit_iff : isDigit c = true ↔ 0x30 ≤ c.toNat ∧ c.toNat < 0x3A := by
  have hzero : ('0'.toUInt8 : Byte).toNat = 0x30 := rfl
  have hnine : ('9'.toUInt8 : Byte).toNat = 0x39 := rfl
  simp only [isDigit, Bool.and_eq_true, decide_eq_true_eq, UInt8.le_iff_toNat_le, hzero, hnine]
  omega

theorem digit_of_isDigit (h : isDigit c = true) :
    Numeral.digit c = c.toNat - '0'.toNat ∧ Numeral.digit c < 10 := by
  have hc := isDigit_iff.mp h
  have hdigit := Numeral.digit_eq hc
  have hzero : '0'.toNat = 0x30 := rfl
  rw [hzero]
  omega

/-- One digit is appended, unless it takes the number above the limit. -/
theorem scanNumber_cons (h : isDigit c = true) :
    scanNumber limit (c :: p) number count =
      if limit < number * 10 + Numeral.digit c then none
      else scanNumber limit p (number * 10 + Numeral.digit c) (count + 1) := by
  obtain ⟨hdigit, hlt⟩ := digit_of_isDigit h
  rw [scanNumber, if_pos h, ← hdigit]
  refine if_congr ?_ rfl rfl
  simp only [gt_iff_lt, Bool.or_eq_true, Bool.and_eq_true, decide_eq_true_eq, beq_iff_eq]
  exact Numeral.exceeds_iff hlt

/-- The loop reads all of the digits if their number is within the limit, and gives up otherwise. -/
theorem scanNumber_eq (h : number ≤ limit) :
    scanNumber limit p number count =
      if (p.takeWhile isDigit).foldl (fun n c => n * 10 + Numeral.digit c) number ≤ limit then
        some ((p.takeWhile isDigit).foldl (fun n c => n * 10 + Numeral.digit c) number,
          count + (p.takeWhile isDigit).length)
      else none := by
  induction p generalizing number count with
  | nil => rw [scanNumber, List.takeWhile_nil, List.foldl_nil, if_pos h]; rfl
  | cons c p ih =>
    by_cases hc : isDigit c = true
    · rw [scanNumber_cons hc, List.takeWhile_cons_of_pos hc, List.foldl_cons]
      by_cases hlimit : limit < number * 10 + Numeral.digit c
      · -- the number of a longer run is not smaller
        have hgrows := Numeral.foldl_value 10 (number * 10 + Numeral.digit c) (p.takeWhile isDigit)
        have hpow : 0 < 10 ^ (p.takeWhile isDigit).length := Nat.pow_pos (by decide)
        have hle := Nat.le_mul_of_pos_right (number * 10 + Numeral.digit c) hpow
        rw [if_pos hlimit, if_neg (by omega)]
      · rw [if_neg hlimit, ih (by omega), List.length_cons, Nat.add_assoc, Nat.add_comm 1]
    · rw [scanNumber, if_neg hc, List.takeWhile_cons_of_neg hc, List.foldl_nil, if_pos h]
      rfl

theorem le_of_scanNumber {n : ℕ} (h : scanNumber limit p 0 0 = some (n, count)) : n ≤ limit := by
  rw [scanNumber_eq (Nat.zero_le limit)] at h
  split_ifs at h with hle
  cases h
  exact hle

/-- No result is out of range. -/
theorem scanUint64_eq (hlimit : limit ≤ kMaxNegative) (h : number ≤ limit) :
    scanUint64 limit p number count = some (scanNumber limit p number count) := by
  have hmax : kMaxNegative = 2 ^ 63 := rfl
  induction p generalizing number count with
  | nil => rfl
  | cons c p ih =>
    by_cases hc : isDigit c = true
    · obtain ⟨hdigit, hlt⟩ := digit_of_isDigit hc
      have hfits : uint64 (Numeral.digit c) = some (Numeral.digit c) := if_pos (by omega)
      have hguard : limit / 10 < number ∨ number = limit / 10 ∧ limit % 10 < Numeral.digit c ↔
          limit < number * 10 + Numeral.digit c := Numeral.exceeds_iff hlt
      rw [scanNumber_cons hc, scanUint64, if_pos hc, ← hdigit, hfits]
      simp only [gt_iff_lt, Bool.or_eq_true, Bool.and_eq_true, decide_eq_true_eq,
        beq_iff_eq, hguard,
        Option.bind_eq_bind, Option.bind_some]
      by_cases hexceeds : limit < number * 10 + Numeral.digit c
      · rw [if_pos hexceeds, if_pos hexceeds]
        rfl
      · have hproduct : uint64 (number * 10) = some (number * 10) := if_pos (by omega)
        have hsum : uint64 (number * 10 + Numeral.digit c) = some (number * 10 + Numeral.digit c) :=
          if_pos (by omega)
        rw [if_neg hexceeds, if_neg hexceeds, hproduct, Option.bind_some, hsum, Option.bind_some]
        exact ih (by omega)
    · rw [scanNumber, scanUint64, if_neg hc, if_neg hc]

theorem numberLimit_le (negative : Bool) : numberLimit negative ≤ kMaxNegative := by
  cases negative with
  | false => exact Nat.le_succ kMaxPositive
  | true => exact Nat.le_refl kMaxNegative

/-- The number with its sign. The least value has no magnitude in its type. -/
theorem signedNumber_eq {negative : Bool} (h : number ≤ numberLimit negative) :
    signedNumber negative number = some (if negative then -(number : ℤ) else number) := by
  have hmax : kMaxPositive = 2 ^ 63 - 1 := rfl
  cases negative with
  | false =>
    have hle : number ≤ kMaxPositive := h
    rw [signedNumber, if_neg Bool.false_ne_true, if_neg Bool.false_ne_true]
    exact if_pos (by omega)
  | true =>
    have hle : number ≤ kMaxPositive + 1 := h
    rw [signedNumber, if_pos rfl, if_pos rfl]
    by_cases hleast : number = kMaxNegative
    · rw [if_pos hleast, hleast]
      rfl
    · have hlt : number ≠ kMaxPositive + 1 := hleast
      have hmagnitude : int64 number = some (number : ℤ) := if_pos (by omega)
      have hnegated : int64 (-(number : ℤ)) = some (-(number : ℤ)) := if_pos (by omega)
      rw [if_neg hleast, hmagnitude]
      exact hnegated

/-! ### A number at the cursor -/

/-- A zero is superfluous if it is not the only digit. -/
theorem superfluousZero_eq_false_iff (p : List Byte) :
    superfluousZero p = false ↔
      ((p.takeWhile isDigit).head? = some '0'.toUInt8 → p.takeWhile isDigit = ['0'.toUInt8]) := by
  have hzero : isDigit '0'.toUInt8 = true := by decide
  rcases p with _ | ⟨c, p⟩
  · simp [superfluousZero]
  · by_cases hc : c = '0'.toUInt8
    · subst hc
      rw [List.takeWhile_cons_of_pos hzero]
      rcases p with _ | ⟨d, p⟩
      · simp [superfluousZero]
      · cases hd : isDigit d <;> simp [superfluousZero, hd]
    · have hhead : ((c :: p).takeWhile isDigit).head? ≠ some '0'.toUInt8 := by
        rw [List.takeWhile_cons]
        split <;> simp [hc]
      rcases p with _ | ⟨d, p⟩
      · simp [superfluousZero, hhead]
      · simp [superfluousZero, hhead, hc]

theorem isRun_takeWhile_iff (p : List Byte) :
    IsRun (p.takeWhile isDigit) ↔ p.takeWhile isDigit ≠ [] ∧ superfluousZero p = false := by
  rw [superfluousZero_eq_false_iff]
  constructor
  · intro h
    exact ⟨h.ne_nil, h.zero_alone⟩
  · rintro ⟨hne, hzero⟩
    exact ⟨hne, fun c hc => List.mem_takeWhile_imp hc, hzero⟩

variable {w : CString} {m : Machine State Store}

theorem rest_moved (m : Machine State Store) (k : ℕ) :
    rest w (moved m k).state = (rest w m.state).drop k := by
  rw [rest, rest, List.drop_drop]
  rfl

theorem parseOneCharToken_sign {negative : Bool} (hm : m.state.mangledCur ≤ w.length)
    (hrest : rest w m.state = numberText negative p)
    (hsign : negative = false → p.head? ≠ some 'n'.toUInt8) :
    (parseOneCharToken 'n' : Parser w Bool) m =
      .ok (negative, moved m (numberText negative []).length) := by
  rw [parseOneCharToken_run 'n' (by decide) hm, ← headD_rest, hrest]
  cases negative with
  | false =>
    rw [if_neg]
    · rfl
    · intro hn
      rcases p with _ | ⟨c, p⟩
      · exact absurd hn (by decide)
      · exact hsign rfl (congrArg some hn)
  | true => exact if_pos rfl

/-- The number behind a sign, which may be there. -/
theorem parseNumber_run {negative : Bool} (hm : m.state.mangledCur ≤ w.length)
    (hrest : rest w m.state = numberText negative p)
    (hsign : negative = false → p.head? ≠ some 'n'.toUInt8) :
    parseNumber (w := w) true m =
      if superfluousZero p then .ok (none, m)
      else if Numeral.value 10 (p.takeWhile isDigit) ≤ numberLimit negative then
        if p.takeWhile isDigit ≠ [] then
          .ok (some (numberValue negative (p.takeWhile isDigit)),
            moved m (numberText negative (p.takeWhile isDigit)).length)
        else .ok (none, moved m (numberText negative []).length)
      else .ok (none, m) := by
  have hbehind : rest w (moved m (numberText negative []).length).state = p := by
    rw [rest_moved, hrest]
    cases negative <;> rfl
  have hcursor : (moved m (numberText negative []).length).state.mangledCur ≤ w.length := by
    have hlength : (rest w m.state).length = w.length - m.state.mangledCur := length_rest
    rw [hrest] at hlength
    cases negative with
    | false => exact hm
    | true =>
      have hpos : (numberText true p).length = p.length + 1 := rfl
      show m.state.mangledCur + 1 ≤ w.length
      omega
  have hdigits := length_takeWhile_rest_le hcursor isDigit
  rw [hbehind] at hdigits
  have hlength : (numberText negative []).length + (p.takeWhile isDigit).length =
      (numberText negative (p.takeWhile isDigit)).length := by
    cases negative with
    | false => exact Nat.zero_add _
    | true => exact Nat.add_comm _ _
  have hscan : scanNumber (if negative then kMaxNegative else kMaxPositive) p 0 0 =
      if Numeral.value 10 (p.takeWhile isDigit) ≤ numberLimit negative then
        some (Numeral.value 10 (p.takeWhile isDigit), 0 + (p.takeWhile isDigit).length)
      else none := scanNumber_eq (Nat.zero_le _)
  rw [parseNumber, saving_run, bind_ok (parseOneCharToken_sign hm hrest hsign), saving_run]
  simp only [hbehind]
  by_cases hzero : superfluousZero p = true
  · rw [if_pos hzero, if_pos hzero]
    rfl
  · rw [if_neg hzero, if_neg hzero, if_neg (show ¬(!true) = true by decide), hscan]
    by_cases hlimit : Numeral.value 10 (p.takeWhile isDigit) ≤ numberLimit negative
    · rw [if_pos hlimit, if_pos hlimit]
      by_cases hne : p.takeWhile isDigit ≠ []
      · have hcount : (0 + (p.takeWhile isDigit).length != 0) = true := by simpa using hne
        rw [if_pos hne]
        simp only [hcount, if_true]
        rw [Nat.zero_add, bind_ok (advance_run hdigits), moved_moved, hlength]
        rfl
      · have hcount : (0 + (p.takeWhile isDigit).length != 0) = false := by simpa using hne
        rw [if_neg hne]
        simp only [hcount]
        rfl
    · rw [if_neg hlimit, if_neg hlimit]
      rfl

/-! ### What is accepted -/

variable {value : ℤ} {m' : Machine State Store}

theorem numberText_append (negative : Bool) (digits after : List Byte) :
    numberText negative (digits ++ after) = numberText negative digits ++ after := by
  cases negative <;> rfl

theorem exists_sign (input : List Byte) : ∃ negative p, input = numberText negative p ∧
    (negative = false → p.head? ≠ some 'n'.toUInt8) := by
  by_cases hsign : input.head? = some 'n'.toUInt8
  · obtain ⟨p, rfl⟩ := List.head?_eq_some_iff.mp hsign
    exact ⟨true, p, rfl, fun h => absurd h Bool.noConfusion⟩
  · exact ⟨false, input, rfl, fun _ => hsign⟩

/-- Nothing but a digit is at the beginning of a run. -/
theorem IsRun.head_ne {digits : List Byte} (h : IsRun digits) (after : List Byte)
    (hc : isDigit c = false) : (digits ++ after).head? ≠ some c := by
  obtain ⟨d, tail, rfl⟩ := List.exists_cons_of_ne_nil h.ne_nil
  have hd := h.all_digits d List.mem_cons_self
  rw [List.cons_append, List.head?_cons]
  rintro ⟨⟩
  exact Bool.false_ne_true (hc.symm.trans hd)

/-- The limit of the sign is the range of `std::int64_t`. -/
theorem le_numberLimit_iff {negative : Bool} {digits : List Byte} :
    Numeral.value 10 digits ≤ numberLimit negative ↔
      -2 ^ 63 ≤ numberValue negative digits ∧ numberValue negative digits ≤ 2 ^ 63 - 1 := by
  have hpositive : numberLimit false = 2 ^ 63 - 1 := rfl
  have hnegative : numberLimit true = 2 ^ 63 := rfl
  cases negative with
  | false =>
    have hvalue : numberValue false digits = (Numeral.value 10 digits : ℤ) := rfl
    omega
  | true =>
    have hvalue : numberValue true digits = -(Numeral.value 10 digits : ℤ) := rfl
    omega

/-- **`ParseNumber` accepts the numbers of the grammar** and stores their values. -/
theorem parseNumber_eq_some_iff (hm : m.state.mangledCur ≤ w.length) :
    parseNumber (w := w) true m = .ok (some value, m') ↔
      ∃ text, BeginsWithNumber (rest w m.state) text value ∧ m' = moved m text.length := by
  constructor
  · intro h
    obtain ⟨negative, p, hrest, hsign⟩ := exists_sign (rest w m.state)
    rw [parseNumber_run hm hrest hsign] at h
    split_ifs at h with hzero hlimit hne
    · cases h
    · have hrun := (isRun_takeWhile_iff p).mpr ⟨hne, (Bool.not_eq_true _).mp hzero⟩
      obtain ⟨hmin, hmax⟩ := le_numberLimit_iff.mp hlimit
      cases h
      refine ⟨_, ⟨⟨negative, _, hrun, rfl, rfl, hmin, hmax⟩, p.dropWhile isDigit, ?_,
        head_dropWhile p⟩, rfl⟩
      rw [hrest, ← numberText_append, List.takeWhile_append_dropWhile]
    · cases h
    · cases h
  · rintro ⟨text, ⟨⟨negative, digits, hrun, rfl, rfl, hrange⟩, after, hinput, hafter⟩, rfl⟩
    rw [← numberText_append] at hinput
    have htake := takeWhile_append_of_head hrun.all_digits hafter
    have hzero : superfluousZero (digits ++ after) = false := by
      have hiff := isRun_takeWhile_iff (digits ++ after)
      rw [htake] at hiff
      exact (hiff.mp hrun).2
    have hsign : negative = false → (digits ++ after).head? ≠ some 'n'.toUInt8 := fun _ =>
      hrun.head_ne after (by decide)
    rw [parseNumber_run hm hinput hsign, hzero, htake, if_neg Bool.false_ne_true,
      if_pos (le_numberLimit_iff.mpr hrange), if_pos hrun.ne_nil]

/-- A number is accepted with a bound if it is accepted and within the bound. -/
theorem bounded_eq_some_iff {f : Parser w (Option ℤ)} {p : ℤ → Prop} [DecidablePred p] :
    (saving fun copy => do
      match ← f with
      | some number =>
        if p number then return some number
        let _ ← modify fun _ => copy
        return none
      | none =>
        let _ ← modify fun _ => copy
        return none : Parser w (Option ℤ)) m = .ok (some value, m') ↔
      f m = .ok (some value, m') ∧ p value := by
  rw [saving_run]
  constructor
  · intro h
    obtain ⟨number, m₁, hf, h⟩ := bind_eq_ok h
    cases number with
    | none => cases h
    | some number =>
      dsimp only at h
      by_cases hp : p number
      · rw [if_pos hp] at h
        cases h
        exact ⟨hf, hp⟩
      · rw [if_neg hp] at h
        cases h
  · rintro ⟨hf, hp⟩
    rw [bind_ok hf]
    dsimp only
    rw [if_pos hp]
    rfl

theorem parseNonNegativeNumber_eq_some_iff :
    parseNonNegativeNumber (w := w) true m = .ok (some value, m') ↔
      parseNumber (w := w) true m = .ok (some value, m') ∧ 0 ≤ value :=
  bounded_eq_some_iff (p := fun number => number ≥ 0)

theorem parsePositiveNumber_eq_some_iff :
    parsePositiveNumber (w := w) true m = .ok (some value, m') ↔
      parseNumber (w := w) true m = .ok (some value, m') ∧ 0 < value := by
  have hiff : parsePositiveNumber (w := w) true m = .ok (some value, m') ↔
      parseNonNegativeNumber (w := w) true m = .ok (some value, m') ∧ 0 < value :=
    bounded_eq_some_iff (p := fun number => number > 0)
  rw [hiff, parseNonNegativeNumber_eq_some_iff, and_assoc]
  refine and_congr_right fun _ => ?_
  omega

/-! ### Reading a text -/

/-- `f` accepts a text `text` before `after` if `L text after` holds, and moves the cursor behind
it. -/
def Reads (f : Parser w Bool) (L : List Byte → List Byte → Prop) : Prop :=
  ∀ m m', m.state.mangledCur ≤ w.length →
    (f m = .ok (true, m') ↔
      ∃ text after, rest w m.state = text ++ after ∧ L text after ∧ m' = moved m text.length)

/-- Behind what has been read. -/
theorem rest_of_append {text after : List Byte} (hm : m.state.mangledCur ≤ w.length)
    (h : rest w m.state = text ++ after) :
    (moved m text.length).state.mangledCur ≤ w.length ∧
      rest w (moved m text.length).state = after := by
  constructor
  · have hlength : (rest w m.state).length = w.length - m.state.mangledCur := length_rest
    rw [h, List.length_append] at hlength
    show m.state.mangledCur + text.length ≤ w.length
    omega
  · rw [rest_moved, h, List.drop_left]

/-- One text after the other. -/
theorem Reads.and {f g : Parser w Bool} {L L' : List Byte → List Byte → Prop} (hf : Reads f L)
    (hg : Reads g L') :
    Reads (f <&&> g) fun text after =>
      ∃ front back, text = front ++ back ∧ L front (back ++ after) ∧ L' back after := by
  intro m m' hm
  constructor
  · intro h
    obtain ⟨m₁, hfirst, hsecond⟩ := and_eq_true_iff.mp h
    obtain ⟨front, behind, hrest, hfront, rfl⟩ := (hf m m₁ hm).mp hfirst
    obtain ⟨hcursor, hbehind⟩ := rest_of_append hm hrest
    obtain ⟨back, after, hinput, hback, rfl⟩ := (hg _ m' hcursor).mp hsecond
    rw [hbehind] at hinput
    subst hinput
    refine ⟨front ++ back, after, ?_, ⟨front, back, rfl, hfront, hback⟩, ?_⟩
    · rw [hrest, List.append_assoc]
    · rw [moved_moved, List.length_append]
  · rintro ⟨_, after, hrest, ⟨front, back, rfl, hfront, hback⟩, rfl⟩
    rw [List.append_assoc] at hrest
    obtain ⟨hcursor, hbehind⟩ := rest_of_append hm hrest
    refine and_eq_true_iff.mpr ⟨_, (hf m _ hm).mpr ⟨front, _, hrest, hfront, rfl⟩, ?_⟩
    refine (hg _ _ hcursor).mpr ⟨back, after, hbehind, hback, ?_⟩
    rw [moved_moved, List.length_append]

theorem reads_parseOneCharToken (t : Char) (h : t.toUInt8 ≠ 0) :
    Reads (parseOneCharToken t h : Parser w Bool) fun text _ => text = [t.toUInt8] := by
  intro m m' hm
  rw [parseOneCharToken_run t h hm, ← headD_rest]
  rcases rest w m.state with _ | ⟨c, after⟩
  · simp [h.symm]
  · by_cases hc : c = t.toUInt8
    · simp [hc, eq_comm]
    · simp [hc]

theorem reads_parseTwoCharToken (token : String) (h : (bytes token).length = 2) :
    Reads (parseTwoCharToken token h : Parser w Bool) fun text _ => text = bytes token := by
  intro m m' hm
  rw [parseTwoCharToken_run token h hm]
  by_cases htoken : (bytes token).isPrefixOf (rest w m.state) = true
  · obtain ⟨after, hafter⟩ := List.isPrefixOf_iff_prefix.mp htoken
    rw [if_pos htoken, ← hafter]
    simp [eq_comm, h]
  · rw [if_neg htoken]
    simp only [Except.ok.injEq, Prod.mk.injEq, Bool.false_eq_true, false_and, false_iff]
    rintro ⟨_, after, hafter, rfl, -⟩
    exact htoken (List.isPrefixOf_iff_prefix.mpr ⟨after, hafter.symm⟩)

/-- A number that is not negative and meets the condition. -/
theorem reads_parseNumberSuch (cond : ℤ → Bool) :
    Reads (parseNumberSuch cond : Parser w Bool) fun text after =>
      ∃ value, IsNumber text value ∧ (∀ c ∈ after.head?, isDigit c = false) ∧ 0 ≤ value ∧
        cond value = true := by
  intro m m' hm
  constructor
  · intro h
    obtain ⟨number, m₁, hnumber, h⟩ := bind_eq_ok h
    cases number with
    | none => cases h
    | some value =>
      dsimp only at h
      rw [pure_run, Except.ok.injEq, Prod.mk.injEq] at h
      obtain ⟨hcond, rfl⟩ := h
      obtain ⟨haccepted, hnonneg⟩ := parseNonNegativeNumber_eq_some_iff.mp hnumber
      obtain ⟨text, ⟨hvalue, after, hrest, hafter⟩, rfl⟩ :=
        (parseNumber_eq_some_iff hm).mp haccepted
      exact ⟨text, after, hrest, ⟨value, hvalue, hafter, hnonneg, hcond⟩, rfl⟩
  · rintro ⟨text, after, hrest, ⟨value, hvalue, hafter, hnonneg, hcond⟩, rfl⟩
    have haccepted := (parseNumber_eq_some_iff hm).mpr ⟨text, ⟨hvalue, after, hrest, hafter⟩, rfl⟩
    rw [parseNumberSuch, bind_ok (parseNonNegativeNumber_eq_some_iff.mpr ⟨haccepted, hnonneg⟩)]
    dsimp only
    rw [hcond]
    rfl

/-! ### Discriminators -/

theorem scans_and {f g : Parser w Bool} {post post' : Bool → ℕ → Prop} (hf : Scans f post)
    (hg : Scans g post') : Scans (f <&&> g) fun _ _ => True := by
  intro m hm
  obtain ⟨b, i, hfirst, hi, -⟩ := hf m hm
  cases b with
  | false => exact ⟨false, i, and_eq_false_iff.mpr (.inl hfirst), hi, trivial⟩
  | true =>
    obtain ⟨b, k, hsecond, hk, -⟩ := hg (moved m i) hi
    refine ⟨b, i + k, ?_, ?_, trivial⟩
    · rw [← moved_moved]
      exact (and_apply f g m).trans (by rw [hfirst]; exact hsecond)
    · rw [← Nat.add_assoc]
      exact hk

/-- An alternative that scans either accepts or leaves the machine alone. -/
theorem attempt_of_scans {f : Parser w Bool} {post : Bool → ℕ → Prop} (hf : Scans f post)
    (hm : m.state.mangledCur ≤ w.length) :
    (∃ m', attempt f m = .ok (true, m')) ∨ Declines (attempt f) m := by
  obtain ⟨b, k, hrun, -, -⟩ := hf m hm
  cases b with
  | true => exact .inl ⟨_, attempt_eq_true_iff.mpr hrun⟩
  | false => exact .inr (declines_of_fails (.attempt ⟨_, hrun, rfl⟩))

theorem length_underscores : (bytes "__").length = 2 := by decide

/-- `__`, a number and `_`. -/
def longDiscriminator : Parser w Bool :=
  parseTwoCharToken "__" length_underscores <&&> parseNumberSuch (fun number => number ≥ 10) <&&>
    parseOneCharToken '_' underscore_ne_zero

/-- `_` and a number. -/
def shortDiscriminator : Parser w Bool :=
  parseOneCharToken '_' underscore_ne_zero <&&> parseNumberSuch (fun number => number < 10)

theorem longDiscriminator_iff (hm : m.state.mangledCur ≤ w.length) :
    (attempt longDiscriminator : Parser w Bool) m = .ok (true, m') ↔
      ∃ number value after, rest w m.state = bytes "__" ++ number ++ bytes "_" ++ after ∧
        IsNumber number value ∧ 10 ≤ value ∧
        m' = moved m (bytes "__" ++ number ++ bytes "_").length := by
  have hreads := (reads_parseTwoCharToken (w := w) "__" length_underscores).and
    ((reads_parseNumberSuch fun number => number ≥ 10).and
      (reads_parseOneCharToken '_' underscore_ne_zero))
  refine attempt_eq_true_iff.trans ((hreads m m' hm).trans ?_)
  constructor
  · rintro ⟨_, after, hrest,
      ⟨_, _, rfl, rfl, number, _, rfl, ⟨value, hnumber, -, -, hten⟩, rfl⟩, rfl⟩
    refine ⟨number, value, after, ?_, hnumber, of_decide_eq_true hten, ?_⟩
    · rw [hrest, ← List.append_assoc]
      rfl
    · rw [← List.append_assoc]
      rfl
  · rintro ⟨number, value, after, hrest, hnumber, hten, rfl⟩
    refine ⟨_, after, hrest, ⟨bytes "__", number ++ bytes "_", ?_, rfl, number, bytes "_", rfl,
      ⟨value, hnumber, ?_, by omega, decide_eq_true hten⟩, rfl⟩, rfl⟩
    · rw [List.append_assoc]
    · intro c hc
      cases hc
      decide

theorem shortDiscriminator_iff (hm : m.state.mangledCur ≤ w.length) :
    (attempt shortDiscriminator : Parser w Bool) m = .ok (true, m') ↔
      ∃ behind number value, rest w m.state = bytes "_" ++ behind ∧
        BeginsWithNumber behind number value ∧ 0 ≤ value ∧ value < 10 ∧
        m' = moved m (bytes "_" ++ number).length := by
  have hreads := (reads_parseOneCharToken (w := w) '_' underscore_ne_zero).and
    (reads_parseNumberSuch fun number => number < 10)
  refine attempt_eq_true_iff.trans ((hreads m m' hm).trans ?_)
  constructor
  · rintro ⟨_, after, hrest, ⟨_, number, rfl, rfl, value, hnumber, hafter, hnonneg, hten⟩, rfl⟩
    rw [List.append_assoc] at hrest
    exact ⟨number ++ after, number, value, hrest, ⟨hnumber, after, rfl, hafter⟩, hnonneg,
      of_decide_eq_true hten, rfl⟩
  · rintro ⟨_, number, value, hrest, ⟨hnumber, after, rfl, hafter⟩, hnonneg, hten, rfl⟩
    rw [← List.append_assoc] at hrest
    exact ⟨_, after, hrest, ⟨bytes "_", number, rfl, rfl, value, hnumber, hafter, hnonneg,
      decide_eq_true hten⟩, rfl⟩

theorem IsNumber.head_ne {text : List Byte} (h : IsNumber text value) (after : List Byte) :
    (text ++ after).head? ≠ some '_'.toUInt8 := by
  obtain ⟨negative, digits, hrun, rfl, -⟩ := h
  cases negative with
  | false => exact hrun.head_ne after (by decide)
  | true => exact fun hn => absurd (Option.some.inj hn) (by decide)

theorem scans_longDiscriminator : Scans (longDiscriminator : Parser w Bool) fun _ _ => True :=
  scans_and (accepts_parseTwoCharToken "__" length_underscores)
    (scans_and (accepts_parseNumberSuch _) (accepts_parseOneCharToken '_' underscore_ne_zero))

theorem scans_shortDiscriminator : Scans (shortDiscriminator : Parser w Bool) fun _ _ => True :=
  scans_and (accepts_parseOneCharToken '_' underscore_ne_zero) (accepts_parseNumberSuch _)

/-- **`ParseDiscriminator` accepts the discriminators of the grammar.** -/
theorem parseDiscriminator_iff (hm : m.state.mangledCur ≤ w.length) :
    parseDiscriminator (w := w) m = .ok (true, m') ↔
      ∃ text, BeginsWithDiscriminator (rest w m.state) text ∧ m' = moved m text.length := by
  constructor
  · intro h
    rcases or_eq_true_iff.mp h with hlong | ⟨m₁, hfails, hshort⟩
    · obtain ⟨number, value, after, hrest, hnumber, hten, rfl⟩ :=
        (longDiscriminator_iff hm).mp hlong
      exact ⟨_, .long hrest hnumber hten, rfl⟩
    · -- the first alternative leaves the machine alone
      have hm₁ : m₁ = m := by
        rcases attempt_of_scans scans_longDiscriminator hm with ⟨m₂, hlong⟩ | hdeclines
        · cases hfails.symm.trans hlong
        · cases hfails.symm.trans hdeclines
          rfl
      subst hm₁
      obtain ⟨behind, number, value, hrest, hnumber, hnonneg, hten, rfl⟩ :=
        (shortDiscriminator_iff hm).mp hshort
      exact ⟨_, .short hrest hnumber hnonneg hten, rfl⟩
  · rintro ⟨text, hbegins, rfl⟩
    cases hbegins with
    | long hrest hnumber hten =>
      exact or_eq_true_iff.mpr (.inl ((longDiscriminator_iff hm).mpr
        ⟨_, _, _, hrest, hnumber, hten, rfl⟩))
    | short hrest hnumber hnonneg hten =>
      refine or_eq_true_iff.mpr (.inr ⟨m, ?_, (shortDiscriminator_iff hm).mpr
        ⟨_, _, _, hrest, hnumber, hnonneg, hten, rfl⟩⟩)
      rcases attempt_of_scans scans_longDiscriminator hm with ⟨m₂, hlong⟩ | hdeclines
      · -- a number does not begin with an underscore
        obtain ⟨number', value', after', hrest', -⟩ := (longDiscriminator_iff hm).mp hlong
        obtain ⟨hisNumber, after, rfl, -⟩ := hnumber
        rw [hrest] at hrest'
        have htail := congrArg (fun input => (input.drop 1).head?) hrest'
        exact absurd htail (hisNumber.head_ne after)
      · exact hdeclines

theorem exists_parseDiscriminator (hm : m.state.mangledCur ≤ w.length) :
    ∃ result m', parseDiscriminator (w := w) m = .ok (result, m') := by
  rcases attempt_of_scans scans_longDiscriminator hm with ⟨m', hlong⟩ | hlong
  · exact ⟨true, m', or_eq_true_iff.mpr (.inl hlong)⟩
  · rcases attempt_of_scans scans_shortDiscriminator hm with ⟨m', hshort⟩ | hshort
    · exact ⟨true, m', or_eq_true_iff.mpr (.inr ⟨m, hlong, hshort⟩)⟩
    · exact ⟨false, m, hlong.or hshort⟩

/-! ### The numbers -/

/-- **The parse functions for numbers accept the numbers of the grammar in the range of
`std::int64_t`**, whatever the length of the digits, and store their values. They never fail to
return, and no operation leaves the range of its type. -/
theorem numbers_exact (hm : m.state.mangledCur ≤ w.length) :
    (∀ value m', parseNumber (w := w) true m = .ok (some value, m') ↔
      ∃ text, BeginsWithNumber (rest w m.state) text value ∧ m' = moved m text.length) ∧
    (∀ value m', parseNonNegativeNumber (w := w) true m = .ok (some value, m') ↔
      ∃ text, BeginsWithNumber (rest w m.state) text value ∧ 0 ≤ value ∧
        m' = moved m text.length) ∧
    (∀ value m', parsePositiveNumber (w := w) true m = .ok (some value, m') ↔
      ∃ text, BeginsWithNumber (rest w m.state) text value ∧ 0 < value ∧
        m' = moved m text.length) ∧
    (∀ m', parseDiscriminator (w := w) m = .ok (true, m') ↔
      ∃ text, BeginsWithDiscriminator (rest w m.state) text ∧ m' = moved m text.length) ∧
    ((∃ result m', parseNumber (w := w) true m = .ok (result, m')) ∧
      (∃ result m', parseNonNegativeNumber (w := w) true m = .ok (result, m')) ∧
      (∃ result m', parsePositiveNumber (w := w) true m = .ok (result, m')) ∧
      ∃ result m', parseDiscriminator (w := w) m = .ok (result, m')) ∧
    ∀ negative p,
      scanUint64 (numberLimit negative) p 0 0 = some (scanNumber (numberLimit negative) p 0 0) ∧
      ∀ number count, scanNumber (numberLimit negative) p 0 0 = some (number, count) →
        signedNumber negative number = some (if negative then -(number : ℤ) else number) := by
  refine ⟨fun value m' => parseNumber_eq_some_iff hm, ?_, ?_, fun m' => parseDiscriminator_iff hm,
    ⟨?_, ?_, ?_, ?_⟩, ?_⟩
  · intro value m'
    rw [parseNonNegativeNumber_eq_some_iff, parseNumber_eq_some_iff hm]
    constructor
    · rintro ⟨⟨text, hnumber, hmoved⟩, hnonneg⟩
      exact ⟨text, hnumber, hnonneg, hmoved⟩
    · rintro ⟨text, hnumber, hnonneg, hmoved⟩
      exact ⟨⟨text, hnumber, hmoved⟩, hnonneg⟩
  · intro value m'
    rw [parsePositiveNumber_eq_some_iff, parseNumber_eq_some_iff hm]
    constructor
    · rintro ⟨⟨text, hnumber, hmoved⟩, hpos⟩
      exact ⟨text, hnumber, hpos, hmoved⟩
    · rintro ⟨text, hnumber, hpos, hmoved⟩
      exact ⟨⟨text, hnumber, hmoved⟩, hpos⟩
  · obtain ⟨result, k, hrun, -⟩ := yields_parseNumber true m hm
    exact ⟨result, _, hrun⟩
  · obtain ⟨result, k, hrun, -⟩ := yields_parseNonNegativeNumber true m hm
    exact ⟨result, _, hrun⟩
  · obtain ⟨result, k, hrun, -⟩ := scans_parsePositiveNumber true m hm
    exact ⟨result, _, hrun⟩
  · exact exists_parseDiscriminator hm
  · intro negative p
    refine ⟨scanUint64_eq (numberLimit_le negative) (Nat.zero_le _), ?_⟩
    intro number count hscan
    exact signedNumber_eq (le_of_scanNumber hscan)

/-- The least value, behind which an underscore ends the digits. -/
theorem numbers_exact_least :
    parseNumber (w := .ofString "n9223372036854775808_") true ⟨initState, ⟨[], 0, []⟩⟩ =
      .ok (some (-2 ^ 63), moved ⟨initState, ⟨[], 0, []⟩⟩ (bytes "n9223372036854775808").length) :=
  ((numbers_exact (by decide)).1 (-2 ^ 63) _).mpr ⟨bytes "n9223372036854775808",
    ⟨⟨true, bytes "9223372036854775808", ⟨by decide, by decide +kernel, by decide +kernel⟩, rfl,
      by decide +kernel, by decide, by decide⟩, bytes "_", rfl, by decide +kernel⟩, rfl⟩

end Demangle

end NgLog
