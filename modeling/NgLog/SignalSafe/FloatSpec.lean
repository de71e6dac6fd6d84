import Mathlib.Data.Int.Notation
import NgLog.Support.Bytes

/-!
# The format specification of a floating-point argument

`ParseSignalSafeFloatSpec` runs at compile time. What it does not support it rejects by a call of a
function that is not `constexpr`, so that there is a specification only if there was no such call.
It keeps to a width and a precision that `FormatSignalSafeFloat` has room for.

A character is its unsigned value, of a `char` or of a `wchar_t`.

## Main definitions

* `SignalSafeFloatSpec`, `parseSignalSafeFloatSpec` — the parser
* `SignalSafeFloatSpec.Admissible` — the specifications that it accepts

## Main results

* `parseNumber_le` — a number is within its limit
* `parseSignalSafeFloatSpec_admissible` — what the parser accepts
-/

namespace NgLog

namespace SignalSafe

/-! ### The code -/

def kMaxSignalSafeFloatPrecision : ℕ := 64
def kSignalSafeFloatBufferSize : ℕ := 512
def kMaxSignalSafeFloatWidth : ℕ := kSignalSafeFloatBufferSize
def kDecimalBase : ℕ := 10
def kMaxAscii : UInt32 := 0x7f

/-- The functions that are not `constexpr`. -/
inductive Rejection
  | signalSafeFloatAlternateFormIsNotSupported
  | signalSafeFloatDynamicFieldIsNotSupported
  | signalSafeFloatPrecisionExceedsLimit
  | signalSafeFloatWidthExceedsLimit
  | signalSafeFloatWidthIsInvalid
  | signalSafeFloatFillIsInvalid
  | signalSafeFloatFillIsNotAscii
  | signalSafeFloatPrecisionIsMissing
  | signalSafeFloatTypeIsNotSupported
  | signalSafeLongDoubleFixedNotationIsNotSupported
  | localeSpecificFormattingIsNotSignalSafe
  deriving DecidableEq

/-- The supported types. -/
inductive FloatType
  | float
  | double
  | longDouble
  deriving DecidableEq

/-- `SignalSafeFloatSpec`. -/
structure SignalSafeFloatSpec where
  fill : Byte := 0x20
  /-- `'<'`, `'>'`, `'^'` or NUL. -/
  align : Byte := 0
  /-- `'+'`, `'-'` or a space. -/
  sign : Byte := 0x2d
  zeroPadding : Bool := false
  width : ℕ := 0
  /-- Negative if absent. -/
  precision : ℤ := -1
  /-- One of `aAeEfFgG` or NUL. -/
  type : Byte := 0
  deriving DecidableEq

/-- `IsDigit`. -/
def isDigit (c : UInt32) : Bool := 0x30 ≤ c && c ≤ 0x39

/-- `IsAscii`. -/
def isAscii (c : UInt32) : Bool := c ≤ kMaxAscii

/-- `IsAlignment`: `'<'`, `'>'` and `'^'`. -/
def isAlignment (c : UInt32) : Bool := c = 0x3c || c = 0x3e || c = 0x5e

/-- An opening brace. -/
def openingBrace : UInt32 := 0x7b

/-- A closing brace. -/
def closingBrace : UInt32 := 0x7d

/-- The rejection of a character. -/
def rejectAt (c : UInt32) (rejection : Rejection) (it : List UInt32) : Except Rejection Unit :=
  if it.head? = some c then .error rejection else .ok ()

/-- The fill character and the alignment. -/
def parseAlignment (spec : SignalSafeFloatSpec) :
    List UInt32 → Except Rejection (SignalSafeFloatSpec × List UInt32)
  | [] => .ok (spec, [])
  | [c] => .ok (if isAlignment c then ({ spec with align := c.toUInt8 }, []) else (spec, [c]))
  | c :: align :: it =>
    if isAlignment align then
      if c = openingBrace ∨ c = closingBrace then .error .signalSafeFloatFillIsInvalid
      else .ok ({ spec with fill := c.toUInt8, align := align.toUInt8 }, it)
    else if isAlignment c then .ok ({ spec with align := c.toUInt8 }, align :: it)
    else .ok (spec, c :: align :: it)

/-- The sign: `'+'`, `'-'` or a space. -/
def parseSign (spec : SignalSafeFloatSpec) : List UInt32 → SignalSafeFloatSpec × List UInt32
  | [] => (spec, [])
  | c :: it =>
    if c = 0x2b ∨ c = 0x2d ∨ c = 0x20 then ({ spec with sign := c.toUInt8 }, it)
      else (spec, c :: it)

/-- The zero padding. -/
def parseZeroPadding (spec : SignalSafeFloatSpec) : List UInt32 → SignalSafeFloatSpec × List UInt32
  | [] => (spec, [])
  | c :: it => if c = 0x30 then ({ spec with zeroPadding := true }, it) else (spec, c :: it)

/-- The loops over the digits of a width and of a precision. -/
def parseNumber (limit : ℕ) (rejection : Rejection) (value : ℕ) :
    List UInt32 → Except Rejection (ℕ × List UInt32)
  | [] => .ok (value, [])
  | c :: it =>
    if isDigit c then
      if limit < value * kDecimalBase + (c.toNat - 0x30) then .error rejection
      else parseNumber limit rejection (value * kDecimalBase + (c.toNat - 0x30)) it
    else .ok (value, c :: it)

/-- The width. -/
def parseWidth (spec : SignalSafeFloatSpec) (it : List UInt32) :
    Except Rejection (SignalSafeFloatSpec × List UInt32) := do
  rejectAt openingBrace .signalSafeFloatDynamicFieldIsNotSupported it
  rejectAt 0x30 .signalSafeFloatWidthIsInvalid it
  let (width, it) ← parseNumber kMaxSignalSafeFloatWidth .signalSafeFloatWidthExceedsLimit
    spec.width it
  return ({ spec with width }, it)

/-- The precision, after `'.'`. -/
def parsePrecision (spec : SignalSafeFloatSpec) :
    List UInt32 → Except Rejection (SignalSafeFloatSpec × List UInt32)
  | [] => .ok (spec, [])
  | c :: it =>
    if c = 0x2e then do
      rejectAt openingBrace .signalSafeFloatDynamicFieldIsNotSupported it
      if it.head?.any isDigit then
        let (precision, it) ←
          parseNumber kMaxSignalSafeFloatPrecision .signalSafeFloatPrecisionExceedsLimit 0 it
        return ({ spec with precision }, it)
      else .error .signalSafeFloatPrecisionIsMissing
    else .ok (spec, c :: it)

/-- `types`. -/
def types : List Byte := bytes "aAeEfFgG"

/-- The type. -/
def parseType (spec : SignalSafeFloatSpec) :
    List UInt32 → Except Rejection (SignalSafeFloatSpec × List UInt32)
  | [] => .ok (spec, [])
  | c :: it =>
    if c = closingBrace then .ok (spec, c :: it)
    else if isAscii c = false ∨ c.toUInt8 ∉ types then .error .signalSafeFloatTypeIsNotSupported
    else .ok ({ spec with type := c.toUInt8 }, it)

/-- The end of the specification. -/
def parseEnd (T : FloatType) (spec : SignalSafeFloatSpec) (it : List UInt32) :
    Except Rejection (SignalSafeFloatSpec × List UInt32) :=
  if it.head?.any (· ≠ closingBrace) then .error .signalSafeFloatTypeIsNotSupported
  else if T = .longDouble ∧ (spec.type = 0x66 ∨ spec.type = 0x46) then
    .error .signalSafeLongDoubleFixedNotationIsNotSupported
  else .ok (spec, it)

/-- `ParseSignalSafeFloatSpec`: the specification, and what follows it. -/
def parseSignalSafeFloatSpec (T : FloatType) (it : List UInt32) :
    Except Rejection (SignalSafeFloatSpec × List UInt32) :=
  match it.head? with
  | none => .ok ({}, it)
  | some c =>
    if c = closingBrace then .ok ({}, it)
    else if isAscii c = false then .error .signalSafeFloatFillIsNotAscii
    else do
      let (spec, it) ← parseAlignment {} it
      let (spec, it) := parseSign spec it
      rejectAt 0x23 .signalSafeFloatAlternateFormIsNotSupported it
      let (spec, it) := parseZeroPadding spec it
      let (spec, it) ← parseWidth spec it
      let (spec, it) ← parsePrecision spec it
      rejectAt 0x4c .localeSpecificFormattingIsNotSignalSafe it
      let (spec, it) ← parseType spec it
      parseEnd T spec it

/-! ### What is accepted -/

/-- The specifications that the parser accepts. -/
structure SignalSafeFloatSpec.Admissible (spec : SignalSafeFloatSpec) : Prop where
  fill_le : spec.fill ≤ 0x7f
  align_mem : spec.align ∈ 0 :: bytes "<>^"
  sign_mem : spec.sign ∈ bytes "+- "
  width_le : spec.width ≤ kMaxSignalSafeFloatWidth
  neg_one_le : -1 ≤ spec.precision
  precision_le : spec.precision ≤ kMaxSignalSafeFloatPrecision
  type_mem : spec.type ∈ 0 :: types

variable {spec next : SignalSafeFloatSpec} {it rest : List UInt32}

theorem admissible_default : SignalSafeFloatSpec.Admissible {} := by
  constructor <;> decide +kernel

/-- The first step of two that succeed. -/
theorem except_bind_eq_ok {α β : Type} {x : Except Rejection α} {f : α → Except Rejection β} {b : β}
    (h : x.bind f = .ok b) : ∃ a, x = .ok a ∧ f a = .ok b := by
  cases x with
  | error rejection => cases h
  | ok a => exact ⟨a, rfl, h⟩

/-- A number is within its limit. -/
theorem parseNumber_le {limit value result : ℕ} {rejection : Rejection} (hvalue : value ≤ limit)
    (h : parseNumber limit rejection value it = .ok (result, rest)) : result ≤ limit := by
  induction it generalizing value with
  | nil =>
    cases h
    exact hvalue
  | cons c it ih =>
    rw [parseNumber] at h
    split at h
    · split at h
      · cases h
      · next hle => exact ih (Nat.le_of_not_lt hle) h
    · cases h
      exact hvalue

theorem toUInt8_mem_of_isAlignment {c : UInt32} (h : isAlignment c = true) :
    c.toUInt8 ∈ 0 :: bytes "<>^" := by
  simp only [isAlignment, Bool.or_eq_true, decide_eq_true_eq] at h
  rcases h with (rfl | rfl) | rfl <;> decide +kernel

theorem toUInt8_le_of_isAscii {c : UInt32} (h : isAscii c = true) : c.toUInt8 ≤ 0x7f := by
  have hle : c.toNat ≤ 0x7f := UInt32.le_iff_toNat_le.mp (of_decide_eq_true h)
  rw [UInt8.le_iff_toNat_le, UInt32.toNat_toUInt8]
  exact Nat.le_trans (Nat.mod_le _ _) hle

theorem parseAlignment_admissible (hascii : ∀ c ∈ it.head?, isAscii c = true) (h : spec.Admissible)
    (hparse : parseAlignment spec it = .ok (next, rest)) : next.Admissible := by
  rw [parseAlignment.eq_def] at hparse
  split at hparse
  · cases hparse
    exact h
  · split at hparse
    · next halign =>
      cases hparse
      exact { h with align_mem := toUInt8_mem_of_isAlignment halign }
    · cases hparse
      exact h
  · split at hparse
    · next c align it halign =>
      split at hparse
      · cases hparse
      · cases hparse
        exact { h with
          fill_le := toUInt8_le_of_isAscii (hascii c rfl)
          align_mem := toUInt8_mem_of_isAlignment halign }
    · split at hparse
      · next halign =>
        cases hparse
        exact { h with align_mem := toUInt8_mem_of_isAlignment halign }
      · cases hparse
        exact h

theorem parseSign_admissible (h : spec.Admissible) : (parseSign spec it).1.Admissible := by
  cases it with
  | nil => exact h
  | cons c it =>
    rw [parseSign]
    split
    · next hsign =>
      have hmem : c.toUInt8 ∈ bytes "+- " := by
        rcases hsign with rfl | rfl | rfl <;> decide +kernel
      exact { h with sign_mem := hmem }
    · exact h

theorem parseZeroPadding_admissible (h : spec.Admissible) :
    (parseZeroPadding spec it).1.Admissible := by
  cases it with
  | nil => exact h
  | cons c it =>
    rw [parseZeroPadding]
    split
    · exact { h with }
    · exact h

theorem parseWidth_admissible (h : spec.Admissible)
    (hparse : parseWidth spec it = .ok (next, rest)) :
    next.Admissible := by
  obtain ⟨_, -, hparse⟩ := except_bind_eq_ok hparse
  obtain ⟨_, -, hparse⟩ := except_bind_eq_ok hparse
  obtain ⟨⟨width, it⟩, hnumber, hparse⟩ := except_bind_eq_ok hparse
  cases hparse
  exact { h with width_le := parseNumber_le h.width_le hnumber }

theorem parsePrecision_admissible (h : spec.Admissible)
    (hparse : parsePrecision spec it = .ok (next, rest)) : next.Admissible := by
  rw [parsePrecision.eq_def] at hparse
  split at hparse
  · cases hparse
    exact h
  · split at hparse
    · obtain ⟨_, -, hparse⟩ := except_bind_eq_ok hparse
      split at hparse
      · obtain ⟨⟨precision, it⟩, hnumber, hparse⟩ := except_bind_eq_ok hparse
        cases hparse
        have hle := parseNumber_le (Nat.zero_le _) hnumber
        exact { h with
          neg_one_le := by show (-1 : ℤ) ≤ (precision : ℤ); omega
          precision_le := by show (precision : ℤ) ≤ _; omega }
      · cases hparse
    · cases hparse
      exact h

theorem parseType_admissible (h : spec.Admissible) (hparse : parseType spec it = .ok (next, rest)) :
    next.Admissible := by
  rw [parseType.eq_def] at hparse
  split at hparse
  · cases hparse
    exact h
  · split at hparse
    · cases hparse
      exact h
    · split at hparse
      · cases hparse
      · next hmem =>
        cases hparse
        exact { h with type_mem := List.mem_cons_of_mem _ (not_not.mp (not_or.mp hmem).2) }

theorem parseEnd_spec {T : FloatType} (hparse : parseEnd T spec it = .ok (next, rest)) :
    next = spec ∧ (T = .longDouble → spec.type ∉ bytes "fF") ∧ ∀ c ∈ rest.head?,
    c = closingBrace := by
  rw [parseEnd] at hparse
  split at hparse
  · cases hparse
  · next hclosed =>
    split at hparse
    · cases hparse
    · next hfixed =>
      cases hparse
      refine ⟨rfl, ?_, ?_⟩
      · rintro hlong hmem
        refine hfixed ⟨hlong, ?_⟩
        have hmem' : spec.type ∈ [0x66, 0x46] := hmem
        simpa using hmem'
      · intro c hc
        simpa [Option.mem_def.mp hc] using hclosed

/-- **What the parser accepts.** Every part of it keeps the specification admissible. -/
theorem parseSignalSafeFloatSpec_admissible {T : FloatType}
    (h : parseSignalSafeFloatSpec T it = .ok (spec, rest)) :
    spec.Admissible ∧ (T = .longDouble → spec.type ∉ bytes "fF") ∧ ∀ c ∈ rest.head?,
    c = closingBrace := by
  have hdefault : SignalSafeFloatSpec.type {} ∉ bytes "fF" := by decide +kernel
  rw [parseSignalSafeFloatSpec] at h
  split at h
  · next hnone =>
    cases h
    refine ⟨admissible_default, fun _ => hdefault, ?_⟩
    simp [hnone]
  · next c hfirst =>
    split at h
    · next hclosed =>
      cases h
      refine ⟨admissible_default, fun _ => hdefault, ?_⟩
      simp [hfirst, hclosed]
    · split at h
      · cases h
      · next hascii =>
        obtain ⟨⟨spec₁, it₁⟩, halignment, h⟩ := except_bind_eq_ok h
        obtain ⟨_, -, h⟩ := except_bind_eq_ok h
        obtain ⟨⟨spec₂, it₂⟩, hwidth, h⟩ := except_bind_eq_ok h
        obtain ⟨⟨spec₃, it₃⟩, hprecision, h⟩ := except_bind_eq_ok h
        obtain ⟨_, -, h⟩ := except_bind_eq_ok h
        obtain ⟨⟨spec₄, it₄⟩, htype, h⟩ := except_bind_eq_ok h
        obtain ⟨rfl, hend⟩ := parseEnd_spec h
        refine ⟨?_, hend⟩
        have hfirst : ∀ c ∈ it.head?, isAscii c = true := by
          intro d hd
          rw [hfirst, Option.mem_some_iff] at hd
          rw [← hd]
          simpa using hascii
        have h₁ := parseAlignment_admissible hfirst admissible_default halignment
        have h₂ := parseWidth_admissible
          (parseZeroPadding_admissible (parseSign_admissible h₁)) hwidth
        exact parseType_admissible (parsePrecision_admissible h₂ hprecision) htype

end SignalSafe

end NgLog
