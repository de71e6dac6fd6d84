import Mathlib.Algebra.Group.Nat.Defs
import NgLog.Support.Bytes
import NgLog.Support.Unicode

/-!
# The UTF-8 encoder

`Utf8Encoder` takes one unit of a wide text at a time. A high surrogate completes no code point: the
encoder keeps it until the next unit arrives, which may then complete two code points.

The encoder is followed by the characters that it still owes: what a text means after a pending high
surrogate. One step moves the characters of `put` from there to the output.

## Main definitions

* `encodeCodePoint`, `Encoder.put`, `Encoder.finish` — the encoder
* `WideEncoding.decode` — the characters of a wide text

## Main results

* `encodeCodePoint_eq` — the encoding of a Unicode scalar value
* `put_spec`, `finish_spec` — the characters that one call completes, and its bytes
-/

namespace NgLog

namespace Utf8

open Unicode

/-- What `wchar_t` holds: UTF-16 units of 16 bits, or UTF-32 units of 32 bits. -/
inductive WideEncoding
  | utf16
  | utf32
  deriving DecidableEq

/-- `std::make_unsigned_t<wchar_t>`. -/
abbrev WideEncoding.Unit : WideEncoding → Type
  | .utf16 => UInt16
  | .utf32 => UInt32

/-- The conversion of a unit to `std::uint32_t`. -/
def WideEncoding.value : (e : WideEncoding) → e.Unit → UInt32
  | .utf16, unit => unit.toUInt32
  | .utf32, unit => unit

/-- The characters of units that have been converted to `std::uint32_t`. -/
def WideEncoding.decode : WideEncoding → List UInt32 → List Char
  | .utf16 => decodeUtf16
  | .utf32 => decodeUtf32

def kOneByteLimit : UInt32 := 0x80
def kTwoByteLimit : UInt32 := 0x800
def kThreeByteLimit : UInt32 := 0x10000
def kTwoByteMarker : UInt32 := 0xc0
def kThreeByteMarker : UInt32 := 0xe0
def kFourByteMarker : UInt32 := 0xf0
def kContinuationMarker : UInt32 := 0x80
def kContinuationMask : UInt32 := 0x3f
def kContinuationBits : UInt32 := 6
def kHighSurrogateMin : UInt32 := 0xd800
def kHighSurrogateMax : UInt32 := 0xdbff
def kLowSurrogateMin : UInt32 := 0xdc00
def kLowSurrogateMax : UInt32 := 0xdfff
def kSurrogateBits : UInt32 := 10
def kSupplementaryBase : UInt32 := 0x10000
def kMaximumCodePoint : UInt32 := 0x10ffff
def kReplacementCharacter : UInt32 := 0xfffd

/-- `kWideCharIsUtf16`. -/
def WideEncoding.kWideCharIsUtf16 (e : WideEncoding) : Bool := e = .utf16

/-- `ContinuationByte`. -/
def continuationByte (codePoint shift : UInt32) : Byte :=
  (kContinuationMarker ||| ((codePoint >>> shift) &&& kContinuationMask)).toUInt8

/-- `EncodeCodePoint`: the bytes that it writes, whose number it returns. -/
def encodeCodePoint (codePoint : UInt32) : List Byte :=
  if codePoint < kOneByteLimit then [codePoint.toUInt8]
  else if codePoint < kTwoByteLimit then
    [(kTwoByteMarker ||| (codePoint >>> kContinuationBits)).toUInt8, continuationByte codePoint 0]
  else if codePoint < kThreeByteLimit then
    [(kThreeByteMarker ||| (codePoint >>> (2 * kContinuationBits))).toUInt8,
      continuationByte codePoint kContinuationBits, continuationByte codePoint 0]
  else
    [(kFourByteMarker ||| (codePoint >>> (3 * kContinuationBits))).toUInt8,
      continuationByte codePoint (2 * kContinuationBits),
      continuationByte codePoint kContinuationBits, continuationByte codePoint 0]

/-- `Utf8Encoder::kMaximumLength`. -/
def kMaximumLength : ℕ := 6

/-- `Utf8Encoder`, whose `high_surrogate_` is a high surrogate awaiting its low one, or zero. -/
structure Encoder where
  highSurrogate : UInt32 := 0

namespace Encoder

/-- The part of `Put` after a pending high surrogate has been dealt with. -/
def putUnit (e : WideEncoding) (value : UInt32) : List Byte × Encoder :=
  if e.kWideCharIsUtf16 ∧ kHighSurrogateMin ≤ value ∧ value ≤ kHighSurrogateMax then ([], ⟨value⟩)
  else
    let isScalarValue :=
      (value < kHighSurrogateMin ∨ kLowSurrogateMax < value) ∧ value ≤ kMaximumCodePoint
    (encodeCodePoint (if isScalarValue then value else kReplacementCharacter), ⟨0⟩)

/-- `Utf8Encoder::Put`: the bytes that it writes, whose number it returns. -/
def put (e : WideEncoding) (encoder : Encoder) (unit : e.Unit) : List Byte × Encoder :=
  let value := e.value unit
  if encoder.highSurrogate ≠ 0 then
    if kLowSurrogateMin ≤ value ∧ value ≤ kLowSurrogateMax then
      (encodeCodePoint (kSupplementaryBase +
        ((encoder.highSurrogate - kHighSurrogateMin) <<< kSurrogateBits) +
        (value - kLowSurrogateMin)), ⟨0⟩)
    else
      let (output, encoder) := putUnit e value
      (encodeCodePoint kReplacementCharacter ++ output, encoder)
  else putUnit e value

/-- `Utf8Encoder::Finish`. -/
def finish (encoder : Encoder) : List Byte × Encoder :=
  if encoder.highSurrogate = 0 then ([], encoder)
  else (encodeCodePoint kReplacementCharacter, ⟨0⟩)

end Encoder

/-! ### Code points -/

theorem continuationByte_eq (codePoint shift : UInt32) :
    continuationByte codePoint shift = (codePoint >>> shift).toUInt8 &&& 0x3f ||| 0x80 := by
  rw [continuationByte, UInt32.toUInt8_or, UInt32.toUInt8_and, UInt8.or_comm]
  rfl

/-- The bits of the first byte: the marker, and those of the code point that are left. -/
theorem leadByte_eq {marker bits : UInt32} (mask : UInt8) {n : ℕ} (hmask : mask.toNat = 2 ^ n - 1)
    (hbits : bits.toNat < 2 ^ n) :
    (marker ||| bits).toUInt8 = bits.toUInt8 &&& mask ||| marker.toUInt8 := by
  have hkept : bits.toUInt8 &&& mask = bits.toUInt8 := by
    have hlt := mask.toNat_lt
    rw [← UInt8.toNat_inj, UInt8.toNat_and, UInt32.toNat_toUInt8, hmask,
      Nat.and_two_pow_sub_one_eq_mod, Nat.mod_eq_of_lt (show bits.toNat < 2 ^ 8 by omega),
      Nat.mod_eq_of_lt hbits]
  rw [UInt32.toUInt8_or, hkept, UInt8.or_comm]

theorem toNat_shiftRight_lt {codePoint shift : UInt32} {m n : ℕ} (hshift : shift.toNat = m)
    (hm : m < 32) (h : codePoint.toNat < 2 ^ n * 2 ^ m) : (codePoint >>> shift).toNat < 2 ^ n := by
  rw [UInt32.toNat_shiftRight, hshift, Nat.mod_eq_of_lt hm, Nat.shiftRight_eq_div_pow]
  exact Nat.div_lt_of_lt_mul (by rwa [Nat.mul_comm])

theorem lt_iff_le_of_succ {value limit bound : UInt32} (h : limit.toNat = bound.toNat + 1) :
    value < limit ↔ value ≤ bound := by
  rw [UInt32.lt_iff_toNat_lt, UInt32.le_iff_toNat_le, h, Nat.lt_succ_iff]

/-- A Unicode scalar value is encoded as the UTF-8 of its character. -/
theorem encodeCodePoint_eq (c : Char) : encodeCodePoint c.val = encode [c] := by
  have hle := ((isValidChar_iff c.val).mp c.valid).2
  rw [encode_singleton, String.utf8EncodeChar_eq_utf8EncodeCharFast, String.utf8EncodeCharFast,
    encodeCodePoint]
  simp only [lt_iff_le_of_succ (show kOneByteLimit.toNat = UInt32.toNat 0x7f + 1 from rfl),
    lt_iff_le_of_succ (show kTwoByteLimit.toNat = UInt32.toNat 0x7ff + 1 from rfl),
    lt_iff_le_of_succ (show kThreeByteLimit.toNat = UInt32.toNat 0xffff + 1 from rfl),
    continuationByte_eq]
  split_ifs with hone htwo hthree
  · rfl
  · rw [UInt32.le_iff_toNat_le] at htwo
    rw [leadByte_eq 0x1f (n := 5) rfl
      (toNat_shiftRight_lt (m := 6) rfl (by decide) (Nat.lt_succ_of_le htwo))]
    rfl
  · rw [UInt32.le_iff_toNat_le] at hthree
    rw [leadByte_eq 0x0f (n := 4) rfl
      (toNat_shiftRight_lt (m := 12) rfl (by decide) (Nat.lt_succ_of_le hthree))]
    rfl
  · rw [leadByte_eq 0x07 (n := 3) rfl
      (toNat_shiftRight_lt (m := 18) rfl (by decide) (Nat.lt_of_le_of_lt hle (by decide)))]
    rfl

/-! ### What one call completes -/

theorem isLowSurrogate_iff {value : UInt32} :
    kLowSurrogateMin ≤ value ∧ value ≤ kLowSurrogateMax ↔ IsLowSurrogate value := Iff.rfl

theorem isScalarValue_iff {value : UInt32} :
    (value < kHighSurrogateMin ∨ kLowSurrogateMax < value) ∧ value ≤ kMaximumCodePoint ↔
      value.isValidChar := (isValidChar_iff value).symm

theorem encodeCodePoint_replacement :
    encodeCodePoint kReplacementCharacter = encode [replacement] := encodeCodePoint_eq replacement

theorem length_encode_replacement : (encode [replacement]).length = 3 := by decide

theorem encodeCodePoint_scalar (value : UInt32) :
    encodeCodePoint (if (value < kHighSurrogateMin ∨ kLowSurrogateMax < value) ∧
      value ≤ kMaximumCodePoint then value else kReplacementCharacter) = encode [scalar value] := by
  rw [← encodeCodePoint_eq]
  by_cases hvalid : value.isValidChar
  · rw [if_pos (isScalarValue_iff.mpr hvalid), scalar_of_valid hvalid]
  · rw [if_neg (mt isScalarValue_iff.mp hvalid), scalar_of_not_valid hvalid]
    rfl

theorem encodeCodePoint_surrogatePair {high low : UInt32} (hhigh : IsHighSurrogate high)
    (hlow : IsLowSurrogate low) :
    encodeCodePoint (kSupplementaryBase + ((high - kHighSurrogateMin) <<< kSurrogateBits) +
      (low - kLowSurrogateMin)) = encode [surrogatePair high low] := by
  have hhighBits : (high - kHighSurrogateMin).toNat = high.toNat - 0xd800 :=
    UInt32.toNat_sub_of_le _ _ hhigh.1
  have hlowBits : (low - kLowSurrogateMin).toNat = low.toNat - 0xdc00 :=
    UInt32.toNat_sub_of_le _ _ hlow.1
  have hvalue : kSupplementaryBase + ((high - kHighSurrogateMin) <<< kSurrogateBits) +
      (low - kLowSurrogateMin) = (surrogatePair high low).val := by
    rw [← UInt32.toNat_inj, toNat_surrogatePair hhigh hlow, UInt32.toNat_add, UInt32.toNat_add,
      UInt32.toNat_shiftLeft, hhighBits, hlowBits, show kSurrogateBits.toNat % 32 = 10 from rfl,
      show kSupplementaryBase.toNat = 0x10000 from rfl, Nat.shiftLeft_eq]
    rw [IsHighSurrogate] at hhigh
    rw [IsLowSurrogate] at hlow
    omega
  rw [hvalue, encodeCodePoint_eq]

namespace Encoder

/-- The unit that the encoder has kept. -/
def pending (encoder : Encoder) : List UInt32 :=
  if encoder.highSurrogate = 0 then [] else [encoder.highSurrogate]

/-- The bytes that the encoder writes if no unit follows. -/
def owed (encoder : Encoder) : ℕ := if encoder.highSurrogate = 0 then 0 else 3

/-- Only a high surrogate of UTF-16 is kept. -/
def WellFormed (e : WideEncoding) (encoder : Encoder) : Prop :=
  encoder.highSurrogate = 0 ∨ e = .utf16 ∧ IsHighSurrogate encoder.highSurrogate

@[simp] theorem pending_zero : (⟨0⟩ : Encoder).pending = [] := rfl

@[simp] theorem owed_zero : (⟨0⟩ : Encoder).owed = 0 := rfl

theorem wellFormed_zero (e : WideEncoding) : WellFormed e ⟨0⟩ := .inl rfl

theorem ne_zero_of_isHighSurrogate {unit : UInt32} (h : IsHighSurrogate unit) : unit ≠ 0 := by
  rintro rfl
  exact absurd h (by decide)

theorem pending_of_ne_zero {encoder : Encoder} (h : encoder.highSurrogate ≠ 0) :
    encoder.pending = [encoder.highSurrogate] := if_neg h

theorem owed_of_ne_zero {encoder : Encoder} (h : encoder.highSurrogate ≠ 0) : encoder.owed = 3 :=
  if_neg h

/-- A call has turned the units into the bytes of the characters and an encoder that is left, within
a number of bytes that also covers what the encoder owes. -/
structure Completes (e : WideEncoding) (units : List UInt32) (limit : ℕ)
    (result : List Byte × Encoder) (text : List Char) : Prop where
  bytes : result.1 = encode text
  wellFormed : result.2.WellFormed e
  meaning (rest : List UInt32) :
    e.decode (units ++ rest) = text ++ e.decode (result.2.pending ++ rest)
  space : result.1.length + result.2.owed ≤ limit

/-- The units of one character, none of which is kept. -/
theorem completes_character {e : WideEncoding} {units : List UInt32} {limit : ℕ}
    {output : List Byte} {c : Char} (hbytes : output = encode [c])
    (hmeaning : ∀ rest, e.decode (units ++ rest) = c :: e.decode rest)
    (hlimit : (encode [c]).length ≤ limit) : Completes e units limit (output, ⟨0⟩) [c] :=
  ⟨hbytes, wellFormed_zero e, hmeaning, hbytes ▸ hlimit⟩

/-- A unit that no high surrogate precedes. -/
theorem putUnit_spec (e : WideEncoding) (value : UInt32) (limit : ℕ) (hlimit : 3 ≤ limit)
    (hvalue : 0xffff < value.toNat → 4 ≤ limit) :
    ∃ text, Completes e [value] limit (putUnit e value) text := by
  by_cases hhigh : e.kWideCharIsUtf16 ∧ kHighSurrogateMin ≤ value ∧ value ≤ kHighSurrogateMax
  · rw [putUnit, if_pos hhigh]
    obtain ⟨he, hhigh⟩ := hhigh
    have hne := ne_zero_of_isHighSurrogate hhigh
    refine ⟨[], rfl, .inr ⟨of_decide_eq_true he, hhigh⟩, fun rest => ?_, ?_⟩
    · rw [pending_of_ne_zero hne]
      rfl
    · rw [owed_of_ne_zero hne]
      exact hlimit
  · rw [putUnit, if_neg hhigh]
    refine ⟨_, completes_character (encodeCodePoint_scalar value) (fun rest => ?_) ?_⟩
    · cases e with
      | utf16 => exact decodeUtf16_other (fun h => hhigh ⟨rfl, h⟩) rest
      | utf32 => rfl
    · by_cases hlarge : 0xffff < value.toNat
      · exact Nat.le_trans (length_encode_singleton_le _) (hvalue hlarge)
      · refine Nat.le_trans (length_encode_singleton_le_three ?_) hlimit
        by_cases hvalid : value.isValidChar
        · rw [scalar_of_valid hvalid]
          exact Nat.le_of_not_lt hlarge
        · rw [scalar_of_not_valid hvalid]
          decide

theorem value_le_of_utf16 (unit : WideEncoding.utf16.Unit) :
    (WideEncoding.utf16.value unit).toNat ≤ 0xffff := Nat.le_of_lt_succ unit.toNat_lt

/-- One unit: the characters that it completes, whose bytes are within the maximum length together
with those of a high surrogate that is kept. -/
theorem put_spec {e : WideEncoding} {encoder : Encoder} (h : encoder.WellFormed e) (unit : e.Unit) :
    ∃ text, Completes e (encoder.pending ++ [e.value unit]) kMaximumLength (encoder.put e unit)
      text := by
  by_cases hzero : encoder.highSurrogate = 0
  · rw [put, if_neg (not_not.mpr hzero), pending, if_pos hzero]
    exact putUnit_spec e _ kMaximumLength (by decide) fun _ => by decide
  · obtain ⟨rfl, hhigh⟩ := h.resolve_left hzero
    rw [put, if_pos hzero, pending_of_ne_zero hzero]
    have hvalue := value_le_of_utf16 unit
    generalize WideEncoding.utf16.value unit = value at hvalue ⊢
    by_cases hlow : kLowSurrogateMin ≤ value ∧ value ≤ kLowSurrogateMax
    · rw [if_pos hlow]
      have hpair := encodeCodePoint_surrogatePair hhigh (isLowSurrogate_iff.mp hlow)
      exact ⟨_, completes_character hpair
        (decodeUtf16_pair hhigh (isLowSurrogate_iff.mp hlow))
        (Nat.le_trans (length_encode_singleton_le _) (by decide))⟩
    · rw [if_neg hlow]
      change ∃ text, Completes _ _ _ (encodeCodePoint kReplacementCharacter ++
        (putUnit .utf16 value).1, (putUnit .utf16 value).2) text
      obtain ⟨text, hbytes, hwellFormed, hmeaning, hspace⟩ :=
        putUnit_spec .utf16 value 3 (by decide)
          fun hlarge => absurd hvalue (Nat.not_le_of_lt hlarge)
      refine ⟨replacement :: text, ?_, hwellFormed, fun rest => ?_, ?_⟩
      · rw [encodeCodePoint_replacement, hbytes]
        exact (encode_append [replacement] text).symm
      · rw [List.append_assoc, List.cons_append, List.cons_append, List.nil_append]
        rw [WideEncoding.decode, decodeUtf16_unpaired hlow, scalar_of_isHighSurrogate hhigh]
        exact congrArg _ (hmeaning rest)
      · rw [encodeCodePoint_replacement, List.length_append, length_encode_replacement,
          kMaximumLength]
        change 3 + _ + (putUnit .utf16 value).2.owed ≤ 6
        omega

/-- The end of the text: the characters of the units that are left, which take the bytes owed. -/
theorem finish_spec {e : WideEncoding} {encoder : Encoder} (h : encoder.WellFormed e) :
    encoder.finish.1 = encode (e.decode encoder.pending) ∧
      encoder.finish.1.length = encoder.owed := by
  by_cases hzero : encoder.highSurrogate = 0
  · rw [finish, if_pos hzero, pending, if_pos hzero, owed, if_pos hzero]
    cases e <;> exact ⟨rfl, rfl⟩
  · obtain ⟨rfl, hhigh⟩ := h.resolve_left hzero
    rw [finish, if_neg hzero, pending_of_ne_zero hzero, owed_of_ne_zero hzero,
      encodeCodePoint_replacement, WideEncoding.decode, decodeUtf16_singleton,
      scalar_of_isHighSurrogate hhigh]
    exact ⟨rfl, length_encode_replacement⟩

end Encoder

end Utf8

end NgLog
