import NgLog.SourceLocation.SymbolizedFrame
import NgLog.Support.CStrings
import NgLog.Support.Delimiters
import NgLog.Support.Numerals
import NgLog.Symbolize.ObjectFile

/-!
# Strings and numbers in a signal handler

The symbolizer has its own conversion of numbers and its own concatenation, which do not allocate.
Both take the size of the array that they write. `itoa_r` fails if the number does not fit, while
the concatenation cuts what it appends.

The digits of a number emerge from the last one on, in a scratch array that has room for those of
any base. They are counted down to its beginning, and a digit before it would be out of bounds.

## Main definitions

* `itoaR`, `safeAppendString`, `safeAppendHexNumber` — the functions
* `Piece`, `appendPieces` — what is appended, and a sequence of calls

## Main results

* `itoaDigits_eq` — the digits are the numeral
* `itoaR_eq`, `safeAppendString_eq` — what is written
* `strings_exact` — numbers and sequences of calls
-/

namespace NgLog

namespace Symbolize

open Numeral (numeral numeral_of_lt numeral_of_le)
open SourceLocation (strlen)

/-! ### The code -/

/-- `"0123456789abcdef"`. -/
def digitsOfBase : List Byte := bytes "0123456789abcdef"

/-- The loop of `itoa_r`: the digits of `i` in front of `digits`. There are `first` bytes left in
the scratch array. -/
def itoaDigits (base : ℕ) : (first i : ℕ) → (digits : List Byte) → Option (List Byte)
  | 0, _, _ => none
  | first + 1, i, digits =>
    let digits := digitsOfBase.getD (i % base) 0 :: digits
    if 0 < i / base then itoaDigits base first (i / base) digits else some digits

/-- `itoa_r`: whether it returns the buffer, and the buffer. There is no result if it would leave
one of its arrays. -/
def itoaR (platform : Platform) (i : BitVec (8 * platform.wordBytes)) (buf : List Byte)
    (sz base : ℕ) : Option (Bool × List Byte) :=
  if sz < 1 then some (false, buf)
  else if base < 2 ∨ 16 < base then (writeByte buf 0 0).map fun buf => (false, buf)
  else do
    let digits ← itoaDigits base (8 * platform.wordBytes) i.toNat []
    if sz ≤ digits.length then (writeByte buf 0 0).map fun buf => (false, buf)
    else do
      let buffer ← Buffer.append digits ⟨[], buf⟩
      (writeByte buffer.contents digits.length 0).map fun buf => (true, buf)

/-- `SafeAppendString`: the array in the end. -/
def safeAppendString (source dest : List Byte) (destSize : ℕ) : Option (List Byte) := do
  let destStringLength ← strlen dest
  if destStringLength < destSize then  -- the assertion
    let room := destSize - destStringLength
    let copied ← strncpy source room
    let buffer ← Buffer.append copied ⟨dest.take destStringLength, dest.drop destStringLength⟩
    writeByte buffer.contents (destStringLength + (room - 1)) 0
  else none

/-- `SafeAppendHexNumber`. The conversion takes an `std::uintptr_t`, and a null pointer cannot be
appended. -/
def safeAppendHexNumber (platform : Platform) (value : UInt64) (dest : List Byte) (destSize : ℕ) :
    Option (List Byte) := do
  let buf := List.replicate 17 0
  let (returned, buf) ← itoaR platform (value.toBitVec.setWidth _) buf 17 16
  if returned then safeAppendString buf dest destSize else none

/-! ### Sequences of calls -/

/-- What one call appends. -/
inductive Piece
  | string (source : CString)
  | hexNumber (value : UInt64)

/-- The call. -/
def Piece.append (platform : Platform) : Piece → List Byte → ℕ → Option (List Byte)
  | .string source => safeAppendString source.array
  | .hexNumber value => safeAppendHexNumber platform value

/-- A string, or the numeral of a number as `std::uintptr_t`. -/
def Piece.text (platform : Platform) : Piece → List Byte
  | .string source => source.text
  | .hexNumber value => numeral 16 (value.toNat % 2 ^ (8 * platform.wordBytes))

/-- One call after the other. -/
def appendPieces (platform : Platform) (destSize : ℕ) : List Piece → List Byte → Option (List Byte)
  | [], dest => some dest
  | piece :: pieces, dest =>
    (piece.append platform dest destSize).bind (appendPieces platform destSize pieces)

/-! ### Digits -/

variable {base first n size : ℕ} {text digits dest source behind : List Byte}

theorem digitsOfBase_getD : ∀ d < 16, digitsOfBase.getD d 0 = Numeral.digitByte d := by decide

/-- The loop ends with the first digit, while there is room for as many as the base allows. -/
theorem itoaDigits_eq (hbase : 1 < base) (hsmall : base ≤ 16) (hfirst : 0 < first)
    (hn : n < base ^ first) (digits : List Byte) :
    itoaDigits base first n digits = some (numeral base n ++ digits) := by
  induction first generalizing n digits with
  | zero => exact absurd hfirst (Nat.lt_irrefl 0)
  | succ first ih =>
    have hdigit := digitsOfBase_getD (n % base) ((Nat.mod_lt n (by omega)).trans_le hsmall)
    rw [itoaDigits, hdigit]
    by_cases hlt : n < base
    · have hlast : n / base = 0 := Nat.div_eq_of_lt hlt
      rw [if_neg (by omega), numeral_of_lt hlt, Nat.mod_eq_of_lt hlt]
      rfl
    · have hle : base ≤ n := Nat.le_of_not_lt hlt
      have hquotient : n / base < base ^ first := by
        rw [Nat.pow_succ] at hn
        exact Nat.div_lt_of_lt_mul (by rwa [Nat.mul_comm])
      have hpos : 0 < n / base := Nat.div_pos hle (by omega)
      have hroom : 0 < first := by
        rcases Nat.eq_zero_or_pos first with rfl | hroom
        · rw [Nat.pow_zero] at hquotient
          omega
        · exact hroom
      rw [if_pos hpos, ih hroom hquotient, numeral_of_le hbase hle, List.append_assoc]
      rfl

/-- The scratch array is large enough for every base. -/
theorem lt_pow_bits (platform : Platform) (hbase : 1 < base)
    (i : BitVec (8 * platform.wordBytes)) : i.toNat < base ^ (8 * platform.wordBytes) :=
  i.isLt.trans_le (Nat.pow_le_pow_left hbase _)

theorem bits_pos (platform : Platform) : 0 < 8 * platform.wordBytes := by
  rw [Platform.wordBytes]
  cases platform.wordSize <;> decide

/-- **`itoa_r` writes the numeral if it fits**, and otherwise an empty string, if that fits. -/
theorem itoaR_eq (platform : Platform) (i : BitVec (8 * platform.wordBytes)) {buf : List Byte}
    {sz : ℕ} (hsz : sz ≤ buf.length) (base : ℕ) :
    itoaR platform i buf sz base =
      if 2 ≤ base ∧ base ≤ 16 ∧ (numeral base i.toNat).length + 1 ≤ sz then
        some (true, numeral base i.toNat ++ 0 :: buf.drop ((numeral base i.toNat).length + 1))
      else some (false, if 1 ≤ sz then 0 :: buf.drop 1 else buf) := by
  rw [itoaR]
  by_cases hempty : sz < 1
  · rw [if_pos hempty, if_neg (by omega), if_neg (by omega)]
  · have hzero : writeByte buf 0 0 = some (0 :: buf.drop 1) := writeByte_append [] (by omega) 0
    rw [if_neg hempty, hzero, Option.map_some, if_pos (show 1 ≤ sz by omega)]
    by_cases hbase : base < 2 ∨ 16 < base
    · rw [if_pos hbase, if_neg (by omega)]
    · have hdigits := itoaDigits_eq (show 1 < base by omega) (by omega) (bits_pos platform)
        (lt_pow_bits platform (by omega) i) []
      rw [if_neg hbase, hdigits, List.append_nil, Option.bind_eq_bind, Option.bind_some]
      by_cases hfits : sz ≤ (numeral base i.toNat).length
      · rw [if_pos hfits, if_neg (by omega)]
      · have hcopy := Buffer.append_run (show (numeral base i.toNat).length ≤
          (Buffer.mk [] buf).rest.length by simp only; omega)
        have hroom : 0 < (buf.drop (numeral base i.toNat).length).length := by
          rw [List.length_drop]
          omega
        rw [if_neg hfits, if_pos (by omega), hcopy, Option.bind_eq_bind, Option.bind_some,
          Buffer.contents_advance, writeByte_append _ hroom, List.drop_drop]
        rfl

/-! ### Appending -/

theorem strlen_of_holdsString (h : HoldsString dest text) : strlen dest = some text.length := by
  obtain ⟨hnul, rest, rfl⟩ := h
  rw [strlen, if_pos (List.mem_append_right _ List.mem_cons_self), takeWhile_ne_append hnul]

/-- **What is appended is cut**, and the rest of the array is filled with NULs. -/
theorem safeAppendString_eq (hsource : HoldsString source digits) (hdest : HoldsString dest text)
    (hlt : text.length < size) (hsize : size ≤ dest.length) :
    safeAppendString source dest size = some (padded size (text ++ digits) ++ dest.drop size) := by
  have hlength := length_strncpy (size - text.length) digits
  have hset := set_strncpy (show 0 < size - text.length by omega) digits
  have htake : dest.take text.length = text := by
    obtain ⟨-, rest, rfl⟩ := hdest
    exact List.take_left
  have hroom : size - text.length ≤ (dest.drop text.length).length := by
    rw [List.length_drop]
    omega
  have hbehind : (dest.drop text.length).drop (size - text.length) = dest.drop size := by
    rw [List.drop_drop, Nat.add_sub_cancel' hlt.le]
  simp only [safeAppendString, strlen_of_holdsString hdest, Option.bind_eq_bind, Option.bind_some]
  rw [if_pos hlt, strncpy_eq hsource, Option.bind_some]
  generalize digits.take (size - text.length) ++
    List.replicate (size - text.length - digits.length) 0 = copied at hlength hset
  rw [Buffer.append_run (by rw [hlength]; exact hroom), Option.bind_some]
  have hcontents : (Buffer.advance copied ⟨dest.take text.length, dest.drop text.length⟩).contents =
      text ++ (copied ++ dest.drop size) := by
    rw [Buffer.advance, Buffer.contents, hlength, htake, hbehind, List.append_assoc]
  have hindex : text.length + (size - text.length - 1) <
      (text ++ (copied ++ dest.drop size)).length := by
    rw [List.length_append, List.length_append, hlength]
    omega
  rw [hcontents, writeByte, if_pos hindex, List.set_append_right _ _ (Nat.le_add_right _ _),
    Nat.add_sub_cancel_left, List.set_append_left _ _ (by omega), hset, ← List.append_assoc,
    append_padded hlt]

theorem toNat_uintptr (platform : Platform) (value : UInt64) :
    (value.toBitVec.setWidth (8 * platform.wordBytes)).toNat =
      value.toNat % 2 ^ (8 * platform.wordBytes) := BitVec.toNat_setWidth _ _

/-- The buffer of `SafeAppendHexNumber` has room for the digits. -/
theorem length_numeral_uintptr (platform : Platform) (value : UInt64) :
    (numeral 16 (value.toNat % 2 ^ (8 * platform.wordBytes))).length + 1 ≤ 17 := by
  have hlt : value.toNat % 2 ^ (8 * platform.wordBytes) < 16 ^ 16 :=
    (Nat.mod_le _ _).trans_lt value.toNat_lt
  exact Nat.succ_le_succ (Numeral.length_numeral_le (by decide) (by decide) hlt)

/-- The numeral is appended like a string. -/
theorem safeAppendHexNumber_eq (platform : Platform) (value : UInt64)
    (hdest : HoldsString dest text) (hlt : text.length < size) (hsize : size ≤ dest.length) :
    safeAppendHexNumber platform value dest size =
      some (padded size (text ++ numeral 16 (value.toNat % 2 ^ (8 * platform.wordBytes))) ++
        dest.drop size) := by
  have hitoa := itoaR_eq platform (value.toBitVec.setWidth (8 * platform.wordBytes))
    (show 17 ≤ (List.replicate 17 (0 : Byte)).length by decide) 16
  rw [toNat_uintptr, if_pos ⟨by decide, by decide, length_numeral_uintptr platform value⟩] at hitoa
  rw [safeAppendHexNumber, hitoa]
  exact safeAppendString_eq ⟨Numeral.zero_notMem_numeral (by decide) (by decide), _, rfl⟩ hdest hlt
    hsize

/-! ### Sequences -/

variable {platform : Platform}

theorem Piece.append_eq (piece : Piece) (hdest : HoldsString dest text) (hlt : text.length < size)
    (hsize : size ≤ dest.length) :
    piece.append platform dest size =
      some (padded size (text ++ piece.text platform) ++ dest.drop size) := by
  cases piece with
  | string source => exact safeAppendString_eq source.holdsString hdest hlt hsize
  | hexNumber value => exact safeAppendHexNumber_eq platform value hdest hlt hsize

theorem Piece.zero_notMem_text (piece : Piece) : 0 ∉ piece.text platform := by
  cases piece with
  | string source => exact source.noNul
  | hexNumber value => exact Numeral.zero_notMem_numeral (by decide) (by decide)

/-- An array in which `size` bytes are for a string, and those behind are `behind`. -/
structure HoldsCut (size : ℕ) (text behind dest : List Byte) : Prop where
  holds : HoldsString dest (text.take (size - 1))
  length_eq : dest.length = size + behind.length
  drop_eq : dest.drop size = behind

/-- One call puts its piece behind the others. -/
theorem HoldsCut.append (h : HoldsCut size text behind dest) (hpos : 0 < size) (piece : Piece) :
    ∃ after, piece.append platform dest size = some after ∧
      HoldsCut size (text ++ piece.text platform) behind after := by
  have hlt : (text.take (size - 1)).length < size := by
    rw [List.length_take]
    omega
  have hlength := h.length_eq
  have hnuls : 0 ∉ text.take (size - 1) ++ piece.text platform := by
    rw [List.mem_append, not_or]
    exact ⟨h.holds.1, piece.zero_notMem_text⟩
  refine ⟨_, piece.append_eq h.holds hlt (by omega), ?_, ?_, ?_⟩
  · rw [← take_append_cut]
    exact holdsString_padded hpos hnuls _
  · rw [List.length_append, length_padded hpos, h.drop_eq]
  · rw [List.drop_left' (length_padded hpos _), h.drop_eq]

/-- A sequence of calls puts its pieces one behind the other. -/
theorem HoldsCut.appendPieces (h : HoldsCut size text behind dest) (hpos : 0 < size)
    (pieces : List Piece) :
    ∃ after, appendPieces platform size pieces dest = some after ∧
      HoldsCut size (text ++ pieces.flatMap (Piece.text platform)) behind after := by
  induction pieces generalizing text dest with
  | nil => exact ⟨dest, rfl, by rwa [List.flatMap_nil, List.append_nil]⟩
  | cons piece pieces ih =>
    obtain ⟨next, hnext, hholds⟩ : ∃ next, piece.append platform dest size = some next ∧
      HoldsCut size (text ++ piece.text platform) behind next := h.append hpos piece
    obtain ⟨after, hafter, hholds⟩ := ih hholds
    refine ⟨after, ?_, ?_⟩
    · rw [Symbolize.appendPieces, hnext, Option.bind_some, hafter]
    · rwa [List.flatMap_cons, ← List.append_assoc]

/-- A module and an offset, cut to sixteen bytes. -/
example :
    appendPieces ⟨.bits64, true⟩ 16 [.string (.ofString "+0x"), .hexNumber 0x1f2e,
      .string (.ofString ")")]
        (bytes "(libc.so" ++ List.replicate 10 0) =
      some (bytes "(libc.so+0x1f2e" ++ List.replicate 3 0) := by
  decide +kernel

theorem holdsCut_of_holdsString (h : HoldsString dest text) (hlt : text.length < size)
    (hsize : size ≤ dest.length) : HoldsCut size text (dest.drop size) dest := by
  refine ⟨?_, ?_, rfl⟩
  · rwa [List.take_of_length_le (by omega)]
  · rw [List.length_drop]
    omega

/-- Every number is an `std::uintptr_t` on 64 bits. -/
theorem Piece.text_hexNumber {value : UInt64}
    (h : platform.wordSize = .bits64 ∨ value.toNat ≤ platform.sizeMax) :
    (Piece.hexNumber value).text platform = numeral 16 value.toNat := by
  have hlt : value.toNat < 2 ^ (8 * platform.wordBytes) := by
    rcases h with hwide | hle
    · rw [Platform.wordBytes, hwide]
      exact value.toNat_lt
    · have hpos : 0 < 2 ^ (8 * platform.wordBytes) := Nat.pow_pos (by decide)
      rw [Platform.sizeMax] at hle
      omega
  rw [Piece.text, Nat.mod_eq_of_lt hlt]

/-! ### Numbers and sequences -/

/-- **Numbers are converted if they fit, and strings are cut.** `itoa_r` writes a numeral or an
empty string; calls of `SafeAppendString` and `SafeAppendHexNumber`, in any sequence, leave the
concatenation of their pieces, cut so that a NUL fits behind it. Nothing is written behind the size,
and nothing else is out of bounds. -/
theorem strings_exact (platform : Platform) :
    (∀ (i : BitVec (8 * platform.wordBytes)) (base sz : ℕ) (buf : List Byte), sz ≤ buf.length →
      itoaR platform i buf sz base =
        if 2 ≤ base ∧ base ≤ 16 ∧ (numeral base i.toNat).length + 1 ≤ sz then
          some (true, numeral base i.toNat ++ 0 :: buf.drop ((numeral base i.toNat).length + 1))
        else some (false, if 1 ≤ sz then 0 :: buf.drop 1 else buf)) ∧
    (∀ (source : CString) (dest text : List Byte) (size : ℕ),
      HoldsString dest text → text.length < size → size ≤ dest.length →
        ∃ after, safeAppendString source.array dest size = some after ∧
          HoldsString after ((text ++ source.text).take (size - 1)) ∧
          after.length = dest.length ∧ after.drop size = dest.drop size) ∧
    (∀ (pieces : List Piece) (dest text : List Byte) (size : ℕ),
      HoldsString dest text → text.length < size → size ≤ dest.length →
        ∃ after, appendPieces platform size pieces dest = some after ∧
          HoldsString after ((text ++ pieces.flatMap (Piece.text platform)).take (size - 1)) ∧
          after.length = dest.length ∧ after.drop size = dest.drop size) ∧
    ∀ value : UInt64, platform.wordSize = .bits64 ∨ value.toNat ≤ platform.sizeMax →
      (Piece.hexNumber value).text platform = numeral 16 value.toNat := by
  refine ⟨?_, ?_, ?_, ?_⟩
  · intro i base sz buf hsz
    exact itoaR_eq platform i hsz base
  · intro source dest text size hdest hlt hsize
    have hcut := holdsCut_of_holdsString hdest hlt hsize
    obtain ⟨after, hafter, hholds⟩ : ∃ after,
        (Piece.string source).append platform dest size = some after ∧
        HoldsCut size (text ++ source.text) (dest.drop size) after :=
      hcut.append (by omega) (.string source)
    exact ⟨after, hafter, hholds.holds, hholds.length_eq.trans hcut.length_eq.symm, hholds.drop_eq⟩
  · intro pieces dest text size hdest hlt hsize
    have hcut := holdsCut_of_holdsString hdest hlt hsize
    obtain ⟨after, hafter, hholds⟩ : ∃ after, appendPieces platform size pieces dest = some after ∧
        HoldsCut size (text ++ pieces.flatMap (Piece.text platform)) (dest.drop size) after :=
      hcut.appendPieces (by omega) pieces
    exact ⟨after, hafter, hholds.holds, hholds.length_eq.trans hcut.length_eq.symm, hholds.drop_eq⟩
  · intro value h
    exact Piece.text_hexNumber h

end Symbolize

end NgLog
