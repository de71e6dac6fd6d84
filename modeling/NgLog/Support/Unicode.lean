import Mathlib.Data.Nat.Notation
import Mathlib.Tactic.Common

/-!
# Wide text and its UTF-8 encoding

A wide text is a sequence of code units, of UTF-16 or of UTF-32. Its meaning is a list of
characters, which are Unicode scalar values: a unit that forms none alone, and is not a half of a
surrogate pair, stands for U+FFFD.

## Main definitions

* `decodeUtf32`, `decodeUtf16` — the characters of a wide text
* `encode` — the UTF-8 encoding of a list of characters

## Main results

* `decodeUtf16_pair`, `decodeUtf16_unpaired`, `decodeUtf16_other` — the first unit of UTF-16
* `length_encode_singleton_le` — a character takes at most four bytes
-/

namespace NgLog

namespace Unicode

/-- U+FFFD, the replacement character. -/
def replacement : Char := ⟨0xfffd, by decide⟩

/-- The first half of a surrogate pair. -/
def IsHighSurrogate (unit : UInt32) : Prop := 0xd800 ≤ unit.toNat ∧ unit.toNat ≤ 0xdbff

/-- The second half of a surrogate pair. -/
def IsLowSurrogate (unit : UInt32) : Prop := 0xdc00 ≤ unit.toNat ∧ unit.toNat ≤ 0xdfff

instance : DecidablePred IsHighSurrogate := fun _ => instDecidableAnd

instance : DecidablePred IsLowSurrogate := fun _ => instDecidableAnd

/-- The character of a unit alone. -/
def scalar (unit : UInt32) : Char :=
  if h : unit.isValidChar then ⟨unit, h⟩ else replacement

/-- The character of a surrogate pair. -/
def surrogatePair (high low : UInt32) : Char :=
  Char.ofNat (0x10000 + (high.toNat - 0xd800) * 0x400 + (low.toNat - 0xdc00))

/-- The characters of a text in UTF-32. -/
def decodeUtf32 (units : List UInt32) : List Char := units.map scalar

/-- The characters of a text in UTF-16. -/
def decodeUtf16 : List UInt32 → List Char
  | [] => []
  | [unit] => [scalar unit]
  | high :: low :: units =>
    if IsHighSurrogate high ∧ IsLowSurrogate low then surrogatePair high low :: decodeUtf16 units
    else scalar high :: decodeUtf16 (low :: units)

/-- The bytes of a text in UTF-8. -/
def encode (text : List Char) : List UInt8 := text.flatMap String.utf8EncodeChar

/-! ### Decoding -/

@[simp] theorem decodeUtf32_nil : decodeUtf32 [] = [] := rfl

@[simp] theorem decodeUtf32_cons (unit : UInt32) (units : List UInt32) :
    decodeUtf32 (unit :: units) = scalar unit :: decodeUtf32 units := rfl

@[simp] theorem decodeUtf16_nil : decodeUtf16 [] = [] := rfl

@[simp] theorem decodeUtf16_singleton (unit : UInt32) : decodeUtf16 [unit] = [scalar unit] := rfl

theorem decodeUtf16_pair {high low : UInt32} (hhigh : IsHighSurrogate high)
    (hlow : IsLowSurrogate low) (units : List UInt32) :
    decodeUtf16 (high :: low :: units) = surrogatePair high low :: decodeUtf16 units := by
  rw [decodeUtf16, if_pos ⟨hhigh, hlow⟩]

theorem decodeUtf16_unpaired {high low : UInt32} (hlow : ¬IsLowSurrogate low)
    (units : List UInt32) :
    decodeUtf16 (high :: low :: units) = scalar high :: decodeUtf16 (low :: units) := by
  rw [decodeUtf16, if_neg fun h => hlow h.2]

theorem decodeUtf16_other {unit : UInt32} (hunit : ¬IsHighSurrogate unit) (units : List UInt32) :
    decodeUtf16 (unit :: units) = scalar unit :: decodeUtf16 units := by
  cases units with
  | nil => rfl
  | cons low units => rw [decodeUtf16, if_neg fun h => hunit h.1]

theorem isValidChar_iff (unit : UInt32) :
    unit.isValidChar ↔ (unit.toNat < 0xd800 ∨ 0xdfff < unit.toNat) ∧ unit.toNat ≤ 0x10ffff := by
  rw [UInt32.isValidChar, Nat.isValidChar]
  omega

theorem scalar_of_valid {unit : UInt32} (h : unit.isValidChar) : scalar unit = ⟨unit, h⟩ :=
  dif_pos h

theorem scalar_of_not_valid {unit : UInt32} (h : ¬unit.isValidChar) : scalar unit = replacement :=
  dif_neg h

theorem scalar_of_isHighSurrogate {unit : UInt32} (h : IsHighSurrogate unit) :
    scalar unit = replacement := by
  refine scalar_of_not_valid fun hvalid => ?_
  rw [isValidChar_iff] at hvalid
  rw [IsHighSurrogate] at h
  omega

theorem toNat_surrogatePair {high low : UInt32} (hhigh : IsHighSurrogate high)
    (hlow : IsLowSurrogate low) :
    (surrogatePair high low).val.toNat =
      0x10000 + (high.toNat - 0xd800) * 0x400 + (low.toNat - 0xdc00) := by
  rw [IsHighSurrogate] at hhigh
  rw [IsLowSurrogate] at hlow
  have hvalid : (0x10000 + (high.toNat - 0xd800) * 0x400 + (low.toNat - 0xdc00)).isValidChar := by
    rw [Nat.isValidChar]
    omega
  rw [surrogatePair, Char.ofNat, dif_pos hvalid]
  rfl

/-! ### Encoding -/

@[simp] theorem encode_nil : encode [] = [] := rfl

@[simp] theorem encode_singleton (c : Char) : encode [c] = String.utf8EncodeChar c :=
  List.flatMap_singleton ..

theorem encode_cons (c : Char) (text : List Char) :
    encode (c :: text) = String.utf8EncodeChar c ++ encode text := List.flatMap_cons

theorem encode_append (text text' : List Char) :
    encode (text ++ text') = encode text ++ encode text' := List.flatMap_append

theorem encode_flatten (pieces : List (List Char)) :
    encode pieces.flatten = (pieces.map encode).flatten := by
  induction pieces with
  | nil => rfl
  | cons piece pieces ih =>
    rw [List.flatten_cons, encode_append, ih]
    rfl

theorem encode_eq_nil_iff {text : List Char} : encode text = [] ↔ text = [] := by
  cases text with
  | nil => simp
  | cons c text => simp [encode_cons, String.utf8EncodeChar_ne_nil]

theorem length_encode_singleton_le (c : Char) : (encode [c]).length ≤ 4 := by
  rw [encode_singleton, String.length_utf8EncodeChar]
  exact c.utf8Size_le_four

/-- A character within the basic multilingual plane takes at most three bytes. -/
theorem length_encode_singleton_le_three {c : Char} (h : c.val.toNat ≤ 0xffff) :
    (encode [c]).length ≤ 3 := by
  rw [encode_singleton, String.length_utf8EncodeChar]
  have hfour := c.utf8Size_le_four
  have hne : c.utf8Size ≠ 4 := by
    rw [Ne, Char.utf8Size_eq_four_iff, UInt32.lt_iff_toNat_lt]
    change ¬0xffff < c.val.toNat
    omega
  omega

theorem encode_prefix {text text' : List Char} (h : text <+: text') :
    encode text <+: encode text' := by
  obtain ⟨rest, rfl⟩ := h
  exact ⟨encode rest, (encode_append ..).symm⟩

end Unicode

end NgLog
