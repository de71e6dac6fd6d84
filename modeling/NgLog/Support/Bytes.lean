import Mathlib.Data.Nat.Notation
import Mathlib.Tactic.Common

/-!
# Bytes and NUL-terminated strings

`CString` is the value of a `const char*` argument: the bytes before the terminating NUL, none of
which is NUL. Reading it at its length gives the terminator; past that there is nothing to read.

## Main definitions

* `Byte`, `bytes` — a `char`, and the bytes of a string literal
* `CString`, `CString.byteAt` — a NUL-terminated string and its bytes, terminator included
-/

namespace NgLog

/-- A `char`. Only its bit pattern matters to the code modelled here. -/
abbrev Byte : Type := UInt8

/-- The bytes of a string literal. -/
def bytes (s : String) : List Byte := s.toList.map Char.toUInt8

/-- A NUL-terminated byte string. -/
structure CString where
  /-- The bytes before the terminator. -/
  text : List Byte
  /-- The first NUL is the terminator. -/
  noNul : 0 ∉ text

namespace CString

/-- The number of bytes before the terminator. -/
def length (s : CString) : ℕ := s.text.length

/-- The bytes of the array in memory, with the terminator. -/
def array (s : CString) : List Byte := s.text ++ [0]

/-- The byte at index `i`; the terminator at `s.length`. -/
def byteAt (s : CString) (i : ℕ) : Byte := s.array.getD i 0

theorem byteAt_of_lt {s : CString} {i : ℕ} (h : i < s.length) : byteAt s i = s.text[i] := by
  rw [byteAt, array, List.getD_eq_getElem?_getD, List.getElem?_append_left h,
    List.getElem?_eq_getElem h, Option.getD_some]

theorem byteAt_of_le {s : CString} {i : ℕ} (h : s.length ≤ i) : byteAt s i = 0 := by
  rw [byteAt, array, List.getD_eq_getElem?_getD]
  rcases Nat.eq_or_lt_of_le h with h | h
  · subst h
    simp [length]
  · rw [List.getElem?_eq_none (by simp only [List.length_append, List.length_singleton]; exact h)]
    rfl

/-- A byte that is not NUL lies before the terminator. -/
theorem lt_of_byteAt_ne_zero {s : CString} {i : ℕ} (h : byteAt s i ≠ 0) : i < s.length :=
  Nat.lt_of_not_le fun hle => h (byteAt_of_le hle)

/-- The literal `text` as a `CString`. -/
def ofString (text : String) (h : 0 ∉ bytes text := by decide) : CString := ⟨bytes text, h⟩

end CString

end NgLog
