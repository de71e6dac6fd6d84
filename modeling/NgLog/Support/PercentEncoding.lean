import Mathlib.Data.Nat.Notation
import NgLog.Support.Bytes

/-!
# Percent encoding

A byte that may not stand for itself is written as `%` and its two hexadecimal digits. Decoding
leaves any other byte as it is, so that it undoes the encoding as long as `%` does not stand for
itself.

## Main definitions

* `encode`, `decode` — the encoding, for any set of bytes that stand for themselves
* `Escaped` — what an encoded text consists of

## Main results

* `decode_encode` — the round trip, whatever follows
* `escaped_encode` — an encoded text has bytes of the set, and escapes
-/

namespace NgLog

namespace PercentEncoding

/-- The digits. -/
def hexDigits : List Byte := bytes "0123456789ABCDEF"

/-- The digit of a number below sixteen. -/
def hexDigit (value : ℕ) : Byte := hexDigits.getD value 0

/-- The number of a digit, in upper or in lower case. -/
def hexValue (digit : Byte) : Option ℕ :=
  if 0x30 ≤ digit ∧ digit ≤ 0x39 then some (digit.toNat - 0x30)
  else if 0x41 ≤ digit ∧ digit ≤ 0x46 then some (digit.toNat - 0x37)
  else if 0x61 ≤ digit ∧ digit ≤ 0x66 then some (digit.toNat - 0x57)
  else none

/-- A byte that does not stand for itself. -/
def escape (byte : Byte) : List Byte :=
  [0x25, hexDigit (byte.toNat / 16), hexDigit (byte.toNat % 16)]

/-- The encoding of a text. -/
def encode (keep : Byte → Bool) (text : List Byte) : List Byte :=
  text.flatMap fun byte => if keep byte then [byte] else escape byte

/-- The text of an encoding. -/
def decode : List Byte → List Byte
  | [] => []
  | byte :: rest =>
    if byte = 0x25 then
      match rest with
      | high :: low :: rest =>
        match hexValue high, hexValue low with
        | some h, some l => UInt8.ofNat (16 * h + l) :: decode rest
        | _, _ => byte :: decode (high :: low :: rest)
      | rest => byte :: decode rest
    else byte :: decode rest

/-- Bytes that stand for themselves, and escapes. -/
inductive Escaped (keep : Byte → Bool) : List Byte → Prop
  | nil : Escaped keep []
  | kept {byte : Byte} {rest : List Byte} (hkeep : keep byte = true) (hrest : Escaped keep rest) :
    Escaped keep (byte :: rest)
  | escape {high low : Byte} {rest : List Byte} (hhigh : high ∈ hexDigits) (hlow : low ∈ hexDigits)
    (hrest : Escaped keep rest) : Escaped keep (0x25 :: high :: low :: rest)

variable {keep : Byte → Bool}

@[simp] theorem encode_nil : encode keep [] = [] := rfl

theorem encode_cons (byte : Byte) (text : List Byte) :
    encode keep (byte :: text) = (if keep byte then [byte] else escape byte) ++ encode keep text :=
  List.flatMap_cons

theorem encode_append (text text' : List Byte) :
    encode keep (text ++ text') = encode keep text ++ encode keep text' := List.flatMap_append

theorem hexDigit_mem {value : ℕ} (h : value < 16) : hexDigit value ∈ hexDigits := by
  have hall : ∀ value < 16, hexDigit value ∈ hexDigits := by decide +kernel
  exact hall value h

theorem hexValue_hexDigit {value : ℕ} (h : value < 16) :
    hexValue (hexDigit value) = some value := by
  have hall : ∀ value < 16, hexValue (hexDigit value) = some value := by decide +kernel
  exact hall value h

theorem decode_cons_of_ne {byte : Byte} (h : byte ≠ 0x25) (rest : List Byte) :
    decode (byte :: rest) = byte :: decode rest := by
  rcases rest with _ | ⟨high, _ | ⟨low, rest⟩⟩ <;> simp [decode, h]

theorem decode_escape (byte : Byte) (rest : List Byte) :
    decode (escape byte ++ rest) = byte :: decode rest := by
  have hlt := byte.toNat_lt
  change decode (0x25 :: hexDigit (byte.toNat / 16) :: hexDigit (byte.toNat % 16) :: rest) = _
  rw [decode, if_pos rfl, hexValue_hexDigit (by omega), hexValue_hexDigit (by omega)]
  dsimp only
  rw [Nat.div_add_mod, UInt8.ofNat_toNat]

/-- Decoding undoes the encoding, by induction on the text. -/
theorem decode_encode (hpercent : keep 0x25 = false) (text rest : List Byte) :
    decode (encode keep text ++ rest) = text ++ decode rest := by
  induction text with
  | nil => rfl
  | cons byte text ih =>
    rw [encode_cons, List.append_assoc]
    cases hkeep : keep byte with
    | false =>
      rw [if_neg Bool.false_ne_true, decode_escape, ih]
      rfl
    | true =>
      have hne : byte ≠ 0x25 := fun h => by rw [h, hpercent] at hkeep; cases hkeep
      rw [if_pos rfl, List.singleton_append, decode_cons_of_ne hne, ih]
      rfl

theorem Escaped.append {text text' : List Byte} (h : Escaped keep text) (h' : Escaped keep text') :
    Escaped keep (text ++ text') := by
  induction h with
  | nil => exact h'
  | kept hkeep _ ih => exact .kept hkeep ih
  | escape hhigh hlow _ ih => exact .escape hhigh hlow ih

theorem escaped_encode (text : List Byte) : Escaped keep (encode keep text) := by
  induction text with
  | nil => exact .nil
  | cons byte text ih =>
    have hlt := byte.toNat_lt
    rw [encode_cons]
    refine Escaped.append ?_ ih
    split_ifs with hkeep
    · exact .kept hkeep .nil
    · exact .escape (hexDigit_mem (by omega)) (hexDigit_mem (by omega)) .nil

/-- A byte that is neither in the set nor in an escape is not in an encoded text. -/
theorem Escaped.notMem {text : List Byte} (h : Escaped keep text) {byte : Byte}
    (hkeep : keep byte = false) (hpercent : byte ≠ 0x25) (hdigit : byte ∉ hexDigits) :
    byte ∉ text := by
  induction h with
  | nil => exact List.not_mem_nil
  | @kept kept _ hkept _ ih =>
    rw [List.mem_cons, not_or]
    refine ⟨?_, ih⟩
    rintro rfl
    rw [hkept] at hkeep
    cases hkeep
  | escape hhigh hlow _ ih =>
    simp only [List.mem_cons, not_or]
    refine ⟨hpercent, ?_, ?_, ih⟩
    · rintro rfl
      exact hdigit hhigh
    · rintro rfl
      exact hdigit hlow

end PercentEncoding

end NgLog
