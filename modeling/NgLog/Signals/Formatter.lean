import NgLog.Support.Buffers
import NgLog.Support.Numerals

/-!
# Formatting in a signal handler

`MinimalFormatter` appends strings and numbers to a buffer of fixed size. What does not fit is left
out. Padding is put in front of a number that has been written completely, as far as there is room.

## Main definitions

* `MinimalFormatter` — the functions

## Main results

* `appendUint64_eq` — a number is appended like the string of its digits
* `appendHexWithPadding_eq` — a number with blanks in front of it
-/

namespace NgLog

namespace Signals

open Numeral (numeral)

/-- The buffer of a formatter, with the cursor behind what has been written. -/
abbrev MinimalFormatter : Type := Buffer

def kHexDigits : List Byte := bytes "0123456789abcdef"
def kDecimalRadix : ℕ := 10
def kHexadecimalRadix : ℕ := 16

/-- The size of the scratch buffer of `AppendUint64`. -/
def kUint64Digits : ℕ := 64

namespace MinimalFormatter

/-- `Reset` -/
def reset (f : MinimalFormatter) : MinimalFormatter := ⟨[], f.contents⟩

/-- `AppendString` for the bytes before a NUL, or for a number of bytes. -/
def appendString : List Byte → MinimalFormatter → MinimalFormatter
  | [], f => f
  | c :: text, f =>
    match f.rest with
    | [] => f
    | _ :: rest => appendString text ⟨f.written ++ [c], rest⟩

/-- The loop of `AppendUint64`, with the digits that have been written and the room in front of
them. It has no result if it would write in front of the scratch buffer. -/
def uint64Digits (radix : ℕ) : (room number : ℕ) → (digits : List Byte) → Option (List Byte)
  | 0, _, _ => none
  | room + 1, number, digits =>
    match kHexDigits[number % radix]? with
    | none => none
    | some c =>
      if number / radix ≠ 0 then uint64Digits radix room (number / radix) (c :: digits)
      else some (c :: digits)

/-- `AppendUint64` -/
def appendUint64 (number : UInt64) (radix : ℕ) (f : MinimalFormatter) : Option MinimalFormatter :=
  (uint64Digits radix kUint64Digits number.toNat []).map fun digits => appendString digits f

/-- `AppendHexWithPadding` -/
def appendHexWithPadding (number : UInt64) (width : ℤ) (f : MinimalFormatter) :
    Option MinimalFormatter :=
  (appendUint64 number kHexadecimalRadix (appendString (bytes "0x") f)).map fun written =>
    let contentLen : ℤ := written.written.length - f.written.length
    if contentLen < width then
      let targetLen := min width f.rest.length
      let delta := targetLen - contentLen
      if delta > 0 then
        let content := written.written.drop f.written.length
        ⟨f.written ++ List.replicate delta.toNat 0x20 ++ content, f.rest.drop targetLen.toNat⟩
      else written
    else written

/-! ### What is written -/

variable {f : MinimalFormatter} {text : List Byte}

/-- What does not fit is left out. -/
theorem appendString_eq (text : List Byte) (f : MinimalFormatter) :
    appendString text f = f.advance (text.take f.rest.length) := by
  induction text generalizing f with
  | nil => rw [appendString, List.take_nil, Buffer.advance_nil]
  | cons c text ih =>
    rw [appendString]
    cases hrest : f.rest with
    | nil => rw [List.length_nil, List.take_zero, Buffer.advance_nil]
    | cons old rest =>
      dsimp only
      rw [ih, List.length_cons, List.take_succ_cons]
      simp only [Buffer.advance, hrest, List.append_assoc, List.singleton_append, List.length_cons,
        List.drop_succ_cons]

theorem kHexDigits_eq : ∀ d < 16, kHexDigits[d]? = some (Numeral.digitByte d) := by decide +kernel

/-- The scratch buffer has room for the digits. -/
theorem uint64Digits_eq {radix : ℕ} (hradix : 1 < radix) (hsmall : radix ≤ 16) {room number : ℕ}
    (hroom : 0 < room) (h : number < radix ^ room) (digits : List Byte) :
    uint64Digits radix room number digits = some (numeral radix number ++ digits) := by
  induction room generalizing number digits with
  | zero => exact absurd hroom (Nat.lt_irrefl 0)
  | succ room ih =>
    have hdigit :=
      kHexDigits_eq (number % radix) (Nat.lt_of_lt_of_le (Nat.mod_lt _ (by omega)) hsmall)
    rw [uint64Digits, hdigit]
    dsimp only
    by_cases hnumber : number < radix
    · rw [if_neg (not_not_intro (Nat.div_eq_of_lt hnumber)), Numeral.numeral_of_lt hnumber,
        Nat.mod_eq_of_lt hnumber]
      rfl
    · have hdiv : number / radix < radix ^ room := by
        rw [Nat.pow_succ] at h
        exact Nat.div_lt_of_lt_mul (by rwa [Nat.mul_comm])
      have hne : number / radix ≠ 0 := (Nat.div_pos (Nat.le_of_not_lt hnumber) (by omega)).ne'
      have hpos : 0 < room := by
        refine Nat.pos_of_ne_zero fun hzero => hnumber ?_
        rwa [hzero, Nat.zero_add, Nat.pow_one] at h
      rw [if_pos hne, ih hpos hdiv, Numeral.numeral_of_le hradix (Nat.le_of_not_lt hnumber),
        List.append_assoc]
      rfl

/-- A number is appended like the string of its digits. -/
theorem appendUint64_eq {radix : ℕ} (hradix : 1 < radix) (hsmall : radix ≤ 16) (number : UInt64)
    (f : MinimalFormatter) :
    appendUint64 number radix f = some (appendString (numeral radix number.toNat) f) := by
  have hnumber : number.toNat < radix ^ kUint64Digits :=
    Nat.lt_of_lt_of_le number.toNat_lt (Nat.pow_le_pow_left hradix 64)
  rw [appendUint64, uint64Digits_eq hradix hsmall (by decide) hnumber, List.append_nil]
  rfl

/-- Two strings are appended like one. -/
theorem appendString_append (text text' : List Byte) (f : MinimalFormatter) :
    appendString text' (appendString text f) = appendString (text ++ text') f := by
  rw [appendString_eq, appendString_eq, appendString_eq, ← Buffer.advance_append,
    Buffer.length_advance,
    List.length_take, List.take_append]
  congr 3
  omega

/-- A number with a prefix, cut as any string is. If all of it fits, there are blanks in front of it
up to the width, or up to the end of the buffer. -/
theorem appendHexWithPadding_eq (number : UInt64) (width : ℤ) (f : MinimalFormatter) :
    let content := (bytes "0x" ++ numeral 16 number.toNat).take f.rest.length
    appendHexWithPadding number width f = some (f.advance
      (List.replicate (min width.toNat f.rest.length - content.length) 0x20 ++ content)) := by
  intro content
  have hcontent : content.length ≤ f.rest.length := List.length_take_le _ _
  rw [appendHexWithPadding, appendUint64_eq (by decide) (by decide), appendString_append,
    appendString_eq]
  show some (ite ((((f.advance content).written.length : ℤ) - f.written.length) < width) _ _) = _
  have hlength : (((f.advance content).written.length : ℤ) - f.written.length) =
      content.length := by
    simp only [Buffer.advance, List.length_append]
    omega
  have hdrop : (f.advance content).written.drop f.written.length = content := List.drop_left
  simp only [show f.advance
    ((bytes "0x" ++ numeral kHexadecimalRadix number.toNat).take f.rest.length) =
    f.advance content from rfl, hlength, hdrop]
  refine congrArg some ?_
  by_cases hwidth : (content.length : ℤ) < width
  · rw [if_pos hwidth]
    by_cases hdelta : (min width f.rest.length - content.length : ℤ) > 0
    · have hblanks : (min width f.rest.length - content.length : ℤ).toNat =
          min width.toNat f.rest.length - content.length := by omega
      have htarget : (min width f.rest.length : ℤ).toNat =
          min width.toNat f.rest.length - content.length + content.length := by omega
      rw [if_pos hdelta, hblanks, htarget, Buffer.advance, List.length_append,
        List.length_replicate,
        List.append_assoc]
    · rw [if_neg hdelta, show min width.toNat f.rest.length - content.length = 0 by omega]
      rfl
  · rw [if_neg hwidth, show min width.toNat f.rest.length - content.length = 0 by omega]
    rfl

end MinimalFormatter

end Signals

end NgLog
