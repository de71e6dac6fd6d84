import Mathlib.Algebra.Group.Nat.Defs
import NgLog.Support.Bytes

/-!
# Reading from an object file

The symbolizer runs in a crash handler and reads files that may be damaged. It reads through
`ReadFromOffset`, which also handles reads that deliver less than was asked for, and it checks
before it reads that a range lies inside the file.

`std::size_t` has the width of a pointer, and so have `ssize_t` and `off_t`, since the library does
not ask for another `off_t`. Unsigned arithmetic that is not checked is a partial operation here:
its fault stands for a result that wraps around. Buffers and cursors into them have faults of their
own.

## Main definitions

* `Platform` — the width of a pointer and the byte order
* `Fault`, `Checked` — what must not happen, and computations in which it may
* `checkedAdd`, `checkedMultiply` — the checked arithmetic of the library
* `File`, `readFromOffset`, `isFileRangeReadable` — a file and the ways to read it

## Main results

* `readFromOffset_eq` — the bytes that are read, however they are delivered
* `isFileRangeReadable_eq` — a readable range lies inside the file
* `readFromOffsetExact_eq_some_iff` — what an exact read delivers
-/

namespace NgLog

namespace Symbolize

/-- The width of a pointer. -/
inductive WordSize
  | bits32
  | bits64
  deriving DecidableEq

structure Platform where
  wordSize : WordSize
  isLittleEndian : Bool

namespace Platform

/-- `sizeof(void*)`. -/
def wordBytes (platform : Platform) : ℕ :=
  match platform.wordSize with
  | .bits32 => 4
  | .bits64 => 8

/-- The maximum of `std::size_t`. -/
def sizeMax (platform : Platform) : ℕ := 2 ^ (8 * platform.wordBytes) - 1

/-- `kMaxReadCount`, the maximum of `ssize_t`. -/
def kMaxReadCount (platform : Platform) : ℕ := 2 ^ (8 * platform.wordBytes - 1) - 1

/-- `kMaxFileOffset`, the maximum of `off_t`. -/
def kMaxFileOffset (platform : Platform) : ℕ := 2 ^ (8 * platform.wordBytes - 1) - 1

theorem kMaxFileOffset_lt_sizeMax (platform : Platform) :
    platform.kMaxFileOffset < platform.sizeMax := by
  rw [kMaxFileOffset, sizeMax, wordBytes]
  cases platform.wordSize <;> decide

theorem le_kMaxFileOffset (platform : Platform) : 2 ^ 31 - 1 ≤ platform.kMaxFileOffset := by
  rw [kMaxFileOffset, wordBytes]
  cases platform.wordSize <;> decide

end Platform

/-- The maximum of `std::uint64_t`. -/
def uint64Max : ℕ := 2 ^ 64 - 1

theorem Platform.sizeMax_le (platform : Platform) : platform.sizeMax ≤ uint64Max := by
  rw [sizeMax, wordBytes, uint64Max]
  cases platform.wordSize <;> decide

/-! ### Arithmetic -/

/-- What must not happen: an unsigned result that wraps around, an access outside of a buffer, an
assertion that does not hold. -/
inductive Fault
  | wrap
  | bounds
  | assertion
  deriving DecidableEq

/-- A computation that may come to a fault. -/
abbrev Checked (α : Type) : Type := Except Fault α

@[simp] theorem ok_bind {α β : Type} (a : α) (f : α → Checked β) : (Except.ok a >>= f) = f a := rfl

/-- An unsigned subtraction. -/
def subtract (left right : ℕ) : Checked ℕ :=
  if right ≤ left then .ok (left - right) else .error .wrap

/-- An unsigned addition. -/
def add (max left right : ℕ) : Checked ℕ :=
  if left + right ≤ max then .ok (left + right) else .error .wrap

/-- A conversion to a narrower unsigned type. -/
def narrow (max value : ℕ) : Checked ℕ := if value ≤ max then .ok value else .error .wrap

/-- `CheckedAdd`, whose subtraction does not wrap around for operands of the type. -/
def checkedAdd (max left right : ℕ) : Option ℕ :=
  if right > max - left then none else some (left + right)

/-- `CheckedMultiply`. -/
def checkedMultiply (max left right : ℕ) : Option ℕ :=
  if left ≠ 0 ∧ right > max / left then none else some (left * right)

theorem subtract_of_le {left right : ℕ} (h : right ≤ left) :
    subtract left right = .ok (left - right) := if_pos h

theorem add_of_le {max left right : ℕ} (h : left + right ≤ max) :
    add max left right = .ok (left + right) := if_pos h

theorem narrow_of_le {max value : ℕ} (h : value ≤ max) : narrow max value = .ok value := if_pos h

theorem checkedAdd_eq_some_iff {max left right result : ℕ} (h : left ≤ max) :
    checkedAdd max left right = some result ↔ left + right ≤ max ∧ left + right = result := by
  rw [checkedAdd]
  split
  · simp only [reduceCtorEq, false_iff]
    omega
  · rw [Option.some.injEq]
    omega

theorem checkedAdd_of_le {max left right : ℕ} (h : left + right ≤ max) :
    checkedAdd max left right = some (left + right) :=
  (checkedAdd_eq_some_iff (Nat.le_trans (Nat.le_add_right _ _) h)).mpr ⟨h, rfl⟩

theorem checkedMultiply_eq_some_iff {max left right result : ℕ} :
    checkedMultiply max left right = some result ↔ left * right ≤ max ∧ left * right = result := by
  rw [checkedMultiply]
  rcases Nat.eq_zero_or_pos left with rfl | hpos
  · simp
  · have hdiv := Nat.le_div_iff_mul_le (x := right) (y := max) hpos
    rw [Nat.mul_comm right left] at hdiv
    split
    · simp only [reduceCtorEq, false_iff]
      omega
    · rw [Option.some.injEq]
      omega

theorem checkedMultiply_of_le {max left right : ℕ} (h : left * right ≤ max) :
    checkedMultiply max left right = some (left * right) :=
  checkedMultiply_eq_some_iff.mpr ⟨h, rfl⟩

/-! ### Files -/

/-- An open file that does not change, and how many bytes `pread` delivers of it: some, unless the
file ends. -/
structure File (platform : Platform) where
  contents : List Byte
  length_le : contents.length ≤ platform.kMaxFileOffset
  /-- For a count and an offset. -/
  delivered : ℕ → ℕ → ℕ
  delivered_pos : ∀ count offset, 0 < count → offset < contents.length → 0 < delivered count offset
  delivered_le : ∀ count offset, delivered count offset ≤ count ∧
    delivered count offset ≤ contents.length - offset

variable {platform : Platform}

/-- A file of which `pread` delivers all that is asked for and there. -/
def File.ofContents (contents : List Byte) (h : contents.length ≤ platform.kMaxFileOffset) :
    File platform where
  contents := contents
  length_le := h
  delivered count offset := min count (contents.length - offset)
  delivered_pos count offset hcount hoffset := by omega
  delivered_le count offset := ⟨Nat.min_le_left _ _, Nat.min_le_right _ _⟩

variable (file : File platform)

/-- `pread`. -/
def File.pread (count offset : ℕ) : List Byte :=
  (file.contents.drop offset).take (file.delivered count offset)

theorem File.length_pread (count offset : ℕ) :
    (file.pread count offset).length = file.delivered count offset := by
  rw [pread, List.length_take, List.length_drop, Nat.min_eq_left (file.delivered_le count offset).2]

/-- The loop of `ReadFromOffset`, with the bytes in the buffer; `none` stands for -1. -/
def readLoop (count offset : ℕ) (buffer : List Byte) : Option (List Byte) :=
  if buffer.length < count then
    match checkedAdd platform.sizeMax offset buffer.length with
    | none => none
    | some readOffset =>
      if readOffset > platform.kMaxFileOffset then none
      else
        if (file.pread (count - buffer.length) readOffset).length = 0 then some buffer
        else readLoop count offset (buffer ++ file.pread (count - buffer.length) readOffset)
  else some buffer
  termination_by count - buffer.length
  decreasing_by
    rw [List.length_append]
    omega

/-- `ReadFromOffset`: the bytes that it reads, none for -1. -/
def readFromOffset (count offset : ℕ) : Option (List Byte) :=
  if count > platform.kMaxReadCount ∨ offset > platform.kMaxFileOffset then none
  else readLoop file count offset []

/-- `ReadFromOffsetExact`, for a count that is no maximum of `std::size_t`. -/
def readFromOffsetExact (count offset : ℕ) : Option (List Byte) :=
  match readFromOffset file count offset with
  | none => none
  | some bytes => if bytes.length = count then some bytes else none

/-- `IsFileRangeReadable`. -/
def isFileRangeReadable (offset size : ℕ) : Checked Bool :=
  let fileSize := file.contents.length
  if offset ≤ fileSize then do
    let available ← subtract fileSize offset
    pure (decide (size ≤ available))
  else pure false

/-! ### What is read -/

/-- The loop reads on until it has all bytes that are there, by induction on the bytes missing. -/
theorem readLoop_eq {count offset : ℕ} (hoffset : offset ≤ platform.kMaxFileOffset)
    {read : ℕ} (hread : read ≤ count) (hend : read ≤ file.contents.length - offset) :
    readLoop file count offset ((file.contents.drop offset).take read) =
      some ((file.contents.drop offset).take count) := by
  have hlength := file.length_le
  have hmax := platform.kMaxFileOffset_lt_sizeMax
  induction hmissing : count - read using Nat.strongRecOn generalizing read with
  | _ missing ih =>
    have hbuffer : ((file.contents.drop offset).take read).length = read := by
      rw [List.length_take, List.length_drop, Nat.min_eq_left hend]
    rw [readLoop, hbuffer]
    by_cases hlt : read < count
    · have hposition : offset + read ≤ platform.kMaxFileOffset := by omega
      rw [if_pos hlt, checkedAdd_of_le (Nat.le_trans hposition (Nat.le_of_lt hmax))]
      dsimp only
      rw [if_neg (Nat.not_lt.mpr hposition), file.length_pread]
      have hdelivered := file.delivered_le (count - read) (offset + read)
      split
      -- nothing is delivered at the end of the file only
      · rename_i hzero
        have hfull : file.contents.length - offset ≤ read := by
          by_contra hmore
          have hpos := file.delivered_pos (count - read) (offset + read) (by omega) (by omega)
          omega
        have hdrop : (file.contents.drop offset).length ≤ read := by
          rw [List.length_drop]
          exact hfull
        rw [List.take_of_length_le hdrop, List.take_of_length_le (Nat.le_trans hdrop hread)]
      · rw [File.pread, ← List.drop_drop, ← List.take_add]
        exact ih (count - (read + file.delivered (count - read) (offset + read))) (by omega)
          (by omega) (by omega) rfl
    · rw [if_neg hlt, Nat.le_antisymm hread (Nat.le_of_not_lt hlt)]

/-- What is read does not depend on how it is delivered. -/
theorem readFromOffset_eq (count offset : ℕ) :
    readFromOffset file count offset =
      if count > platform.kMaxReadCount ∨ offset > platform.kMaxFileOffset then none
      else some ((file.contents.drop offset).take count) := by
  rw [readFromOffset]
  split
  · rfl
  · have hread : readLoop file count offset ((file.contents.drop offset).take 0) = _ :=
      readLoop_eq file (by omega) (Nat.zero_le _) (Nat.zero_le _)
    rwa [List.take_zero] at hread

/-- Inside of the file all bytes are read. -/
theorem readFromOffset_of_le {count offset : ℕ} (h : offset + count ≤ file.contents.length) :
    readFromOffset file count offset = some ((file.contents.drop offset).take count) := by
  have hlength := file.length_le
  have hcount : platform.kMaxReadCount = platform.kMaxFileOffset := rfl
  rw [readFromOffset_eq, if_neg]
  omega

/-- An exact read delivers bytes inside of the file only. -/
theorem readFromOffsetExact_eq_some_iff {count offset : ℕ} {bytes : List Byte} (hpos : 0 < count) :
    readFromOffsetExact file count offset = some bytes ↔
      offset + count ≤ file.contents.length ∧
        bytes = (file.contents.drop offset).take count := by
  have htake : ((file.contents.drop offset).take count).length = count ↔
      offset + count ≤ file.contents.length := by
    rw [List.length_take, List.length_drop]
    omega
  rw [readFromOffsetExact]
  constructor
  · intro h
    rw [readFromOffset_eq] at h
    split at h
    · cases h
    · rename_i heq
      split at heq
      · cases heq
      · obtain rfl := Option.some.inj heq
        split at h
        · rename_i hlength
          exact ⟨htake.mp hlength, (Option.some.inj h).symm⟩
        · cases h
  · rintro ⟨hle, rfl⟩
    rw [readFromOffset_of_le file hle]
    exact if_pos (htake.mpr hle)

theorem isFileRangeReadable_eq (offset size : ℕ) :
    isFileRangeReadable file offset size =
      .ok (decide (offset + size ≤ file.contents.length)) := by
  rw [isFileRangeReadable]
  split
  · rename_i hle
    rw [subtract_of_le hle]
    change Except.ok _ = Except.ok _
    rw [decide_eq_decide.mpr]
    omega
  · change Except.ok _ = Except.ok _
    rw [decide_eq_false]
    omega

end Symbolize

end NgLog
