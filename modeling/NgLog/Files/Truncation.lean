import Mathlib.Algebra.Group.Nat.Defs
import Mathlib.Algebra.Ring.Int.Defs
import NgLog.Support.Bytes

/-!
# Truncating a log file

`TruncateLogFileDescriptor` copies the last bytes of a file to its beginning, block by block, and
cuts off the rest. A read may return fewer bytes than there are. The place that is read stays ahead
of the place that is written, so that a block is read before it is overwritten.

The limits are unsigned and the offsets are signed. A limit of `2 ^ 63` or more becomes a negative
offset, which every file exceeds.

Before it copies anything, the function logs that it is going to. If that message goes to the file
itself, as it does for the standard error while messages are logged there, it stands behind the
bytes that are kept, and is copied with them.

## Main definitions

* `pread`, `pwrite`, `ftruncate` — what the calls do to a regular file
* `copyBlocks`, `truncateLogFileDescriptor` — the function
* `kept` — what is to be left of the file
* `Harmless` — the limits and the message are such that it is

## Main results

* `copyBlocks_spec` — the loop moves a tail of the file, however short the reads are
* `truncateLogFileDescriptor_iff` — when the function leaves what it should
-/

namespace NgLog

namespace Truncation

/-! ### The calls -/

/-- A regular file, of a size that an `off_t` of 64 bits can hold. -/
structure RegularFile where
  content : List Byte
  size_lt : content.length < 2 ^ 63

/-- How many of the available bytes the reads return. -/
structure Reads where
  /-- The count of a read, by its number. -/
  count : (number available : ℕ) → ℕ
  pos : ∀ number available, 0 < available → 0 < count number available
  le : ∀ number available, count number available ≤ available

def kCopyBlockSize : ℕ := 8192

/-- `pread` into the buffer. -/
def pread (reads : Reads) (number : ℕ) (content : List Byte) (offset : ℕ) : List Byte :=
  (content.drop offset).take (reads.count number (min kCopyBlockSize (content.length - offset)))

/-- A complete `pwrite`. A gap behind the end is filled with zeros. -/
def pwrite (content data : List Byte) (offset : ℕ) : List Byte :=
  content.take offset ++ List.replicate (offset - content.length) 0 ++ data ++
    content.drop (offset + data.length)

/-- `ftruncate`. -/
def ftruncate (content : List Byte) (size : ℕ) : List Byte :=
  content.take size ++ List.replicate (size - content.length) 0

/-! ### The function -/

/-- `static_cast<off_t>`. -/
def toOffset (value : UInt64) : ℤ :=
  if value.toNat < 2 ^ 63 then value.toNat else value.toNat - 2 ^ 64

/-- The loop, from the read of this number on: the content and `write_offset` behind it. It has not
ended if `fuel` runs out. -/
def copyBlocks (reads : Reads) : (fuel number : ℕ) → List Byte → (readOffset writeOffset : ℕ) →
    Option (List Byte × ℕ)
  | 0, _, _, _, _ => none
  | fuel + 1, number, content, readOffset, writeOffset =>
    let copybuf := pread reads number content readOffset
    if copybuf.isEmpty then some (content, writeOffset)
    else
      copyBlocks reads fuel (number + 1) (pwrite content copybuf writeOffset)
        (readOffset + copybuf.length) (writeOffset + copybuf.length)

/-- `TruncateLogFileDescriptor` of a regular file: the content that it leaves. `LOG(INFO)` appends
`logged` to the file, which is nothing if the message goes elsewhere. The difference of the offsets
is undefined if an `off_t` cannot hold it; it is never negative. -/
def truncateLogFileDescriptor (reads : Reads) (file : RegularFile) (logged : List Byte)
    (limit keep : UInt64) : Option (List Byte) :=
  let size : ℤ := file.content.length
  if size ≤ toOffset limit then some file.content
  else if size ≤ toOffset keep then some file.content
  else
    let content := file.content ++ logged
    let readOffset := size - toOffset keep
    if 2 ^ 63 ≤ readOffset then none
    else
      (copyBlocks reads (content.length + 1) 0 content readOffset.toNat 0).map
        fun (content, writeOffset) => ftruncate content writeOffset

/-- What is to be left: everything if the size is within one of the limits, or the last `keep`
bytes. -/
def kept (file : RegularFile) (limit keep : UInt64) : List Byte :=
  if file.content.length ≤ limit.toNat ∨ file.content.length ≤ keep.toNat then file.content
  else file.content.drop (file.content.length - keep.toNat)

/-! ### The loop -/

variable {reads : Reads} {number : ℕ}

theorem length_pread (reads : Reads) (number : ℕ) (content : List Byte) (offset : ℕ) :
    (pread reads number content offset).length ≤ content.length - offset := by
  rw [pread, List.length_take, List.length_drop]
  omega

/-- There is something to read up to the end of the file. -/
theorem pread_pos (reads : Reads) (number : ℕ) {content : List Byte} {offset : ℕ}
    (h : offset < content.length) : 0 < (pread reads number content offset).length := by
  have hsize : 0 < min kCopyBlockSize (content.length - offset) := by
    have hblock : 0 < kCopyBlockSize := by decide
    omega
  have hcount := reads.pos number _ hsize
  rw [pread, List.length_take, List.length_drop]
  omega

theorem pread_eq_nil (reads : Reads) (number : ℕ) {content : List Byte} {offset : ℕ}
    (h : content.length ≤ offset) : pread reads number content offset = [] := by
  have hlength := length_pread reads number content offset
  exact List.eq_nil_of_length_eq_zero (by omega)

theorem pread_eq_take (reads : Reads) (number : ℕ) (content : List Byte) (offset : ℕ) :
    pread reads number content offset =
      (content.drop offset).take (pread reads number content offset).length := by
  rw [pread, List.length_take, ← List.take_take, List.take_length]

/-- The file after `written` bytes of the part from `gap` on have been moved to the beginning. -/
def moved (content : List Byte) (gap written : ℕ) : List Byte :=
  (content.drop gap).take written ++ content.drop written

variable {content : List Byte} {gap written : ℕ}

theorem length_moved (h : gap + written ≤ content.length) :
    (moved content gap written).length = content.length := by
  rw [moved, List.length_append, List.length_take, List.length_drop, List.length_drop]
  omega

theorem length_take_drop (h : gap + written ≤ content.length) :
    ((content.drop gap).take written).length = written := by
  rw [List.length_take, List.length_drop]
  omega

/-- What has not been read yet is as it was. -/
theorem drop_moved (h : gap + written ≤ content.length) :
    (moved content gap written).drop (gap + written) = content.drop (gap + written) := by
  have hlength := length_take_drop h
  rw [moved, List.drop_append, hlength, List.drop_drop, Nat.add_sub_cancel,
    List.drop_eq_nil_of_le (by omega), List.nil_append, Nat.add_comm written gap]

/-- Writing the bytes that come next moves them too. -/
theorem pwrite_moved {count : ℕ} (h : gap + (written + count) ≤ content.length) :
    pwrite (moved content gap written) ((content.drop (gap + written)).take count) written =
      moved content gap (written + count) := by
  have hlength := length_take_drop (show gap + written ≤ content.length by omega)
  have hdata : ((content.drop (gap + written)).take count).length = count :=
    length_take_drop (by omega)
  have htake : (moved content gap written).take written = (content.drop gap).take written := by
    rw [moved, List.take_append, hlength, Nat.sub_self, List.take_zero, List.append_nil,
      List.take_of_length_le (by omega)]
  have hdrop : (moved content gap written).drop (written + count) = content.drop
      (written + count) := by
    rw [moved, List.drop_append, hlength, List.drop_drop, Nat.add_sub_cancel_left,
      List.drop_eq_nil_of_le (by omega), List.nil_append]
  have hgap : written - (moved content gap written).length = 0 := by
    rw [length_moved (by omega)]
    omega
  rw [pwrite, hdata, htake, hdrop, hgap, List.replicate_zero, List.append_nil, moved, List.take_add,
    List.drop_drop]

/-- The loop moves the rest of the part from `gap` on. -/
theorem copyBlocks_moved {fuel : ℕ} (h : gap + written ≤ content.length)
    (hfuel : content.length - (gap + written) < fuel) :
    copyBlocks reads fuel number (moved content gap written) (gap + written) written =
      some (moved content gap (content.length - gap), content.length - gap) := by
  induction fuel generalizing number written with
  | zero => omega
  | succ fuel ih =>
    have hsize : (moved content gap written).length = content.length := length_moved h
    rw [copyBlocks]
    by_cases hend : gap + written = content.length
    · obtain rfl : written = content.length - gap := by omega
      rw [pread_eq_nil reads number (by omega)]
      rfl
    · have hpos : 0 < (pread reads number (moved content gap written) (gap + written)).length :=
        pread_pos reads number (by omega)
      have hle := length_pread reads number (moved content gap written) (gap + written)
      have hread := pread_eq_take reads number (moved content gap written) (gap + written)
      rw [drop_moved h] at hread
      generalize pread reads number (moved content gap written) (gap + written) = copybuf
        at hpos hle hread
      have hne : ¬copybuf.isEmpty = true := by
        rw [List.isEmpty_iff]
        rintro rfl
        exact absurd hpos (by decide)
      have hwrite : pwrite (moved content gap written) copybuf written =
          moved content gap (written + copybuf.length) := by
        conv_lhs => rw [hread]
        exact pwrite_moved (by omega)
      rw [if_neg hne, hwrite, Nat.add_assoc]
      exact ih (by omega) (by omega)

/-- Where nothing is to be read, nothing is written. -/
theorem copyBlocks_of_le {fuel readOffset : ℕ} (h : content.length ≤ readOffset) :
    copyBlocks reads (fuel + 1) number content readOffset 0 = some (content, 0) := by
  rw [copyBlocks, pread_eq_nil reads number h]
  rfl

/-- The part of the file from an offset on is what is left in the end. -/
theorem copyBlocks_spec (reads : Reads) (content : List Byte) (gap : ℕ) :
    (copyBlocks reads (content.length + 1) 0 content gap 0).map
        (fun (content, writeOffset) => ftruncate content writeOffset) =
      some (content.drop gap) := by
  by_cases hgap : gap ≤ content.length
  · have hloop : copyBlocks reads (content.length + 1) 0 content gap 0 =
        some (moved content gap (content.length - gap), content.length - gap) := by
      have hmoved : copyBlocks reads (content.length + 1) 0 (moved content gap 0) (gap + 0) 0 =
          some (moved content gap (content.length - gap), content.length - gap) :=
        copyBlocks_moved (by omega) (by omega)
      rwa [show moved content gap 0 = content by simp [moved], Nat.add_zero] at hmoved
    have htail : (content.drop gap).take (content.length - gap) = content.drop gap :=
      List.take_of_length_le (by rw [List.length_drop])
    have hsize : (moved content gap (content.length - gap)).length = content.length :=
      length_moved (by omega)
    have htake : (moved content gap (content.length - gap)).take (content.length - gap) =
        content.drop gap := by
      rw [moved, htail, ← List.length_drop, List.take_left]
    rw [hloop, Option.map_some]
    dsimp only
    rw [ftruncate, htake, hsize, Nat.sub_eq_zero_of_le (by omega), List.replicate_zero,
      List.append_nil]
  · rw [copyBlocks_of_le (by omega), List.drop_eq_nil_of_le (by omega)]
    simp [ftruncate]

/-! ### When the file is left as it should be -/

/-- The function keeps the tail from a signed difference on, where it does not stop before. -/
theorem truncateLogFileDescriptor_eq (reads : Reads) (file : RegularFile) (logged : List Byte)
    (limit keep : UInt64) (hlimit : ¬(file.content.length : ℤ) ≤ toOffset limit)
    (hkeep : ¬(file.content.length : ℤ) ≤ toOffset keep)
    (hsub : (file.content.length : ℤ) - toOffset keep < 2 ^ 63) :
    truncateLogFileDescriptor reads file logged limit keep =
      some ((file.content ++ logged).drop (file.content.length - toOffset keep).toNat) := by
  rw [truncateLogFileDescriptor]
  dsimp only
  rw [if_neg hlimit, if_neg hkeep, if_neg (by omega)]
  exact copyBlocks_spec reads (file.content ++ logged) _

/-- The size is within a limit in the range of an offset, or both are and nothing is logged to the
file; or a limit is not, but what is left happens to be all that there was. -/
def Harmless (file : RegularFile) (logged : List Byte) (limit keep : UInt64) : Prop :=
  limit.toNat < 2 ^ 63 ∧ file.content.length ≤ limit.toNat ∨
    keep.toNat < 2 ^ 63 ∧ file.content.length ≤ keep.toNat ∨
    limit.toNat < 2 ^ 63 ∧ keep.toNat < 2 ^ 63 ∧ logged = [] ∨
    2 ^ 63 ≤ limit.toNat ∧ keep.toNat < 2 ^ 63 ∧
      file.content.drop (file.content.length - keep.toNat) ++ logged = file.content ∨
    2 ^ 63 + file.content.length < keep.toNat ∧ logged.drop (2 ^ 64 - keep.toNat) = file.content

/-- A size that is within a limit as an offset is within the limit. -/
theorem le_toOffset_iff (size : ℕ) (limit : UInt64) :
    (size : ℤ) ≤ toOffset limit ↔ limit.toNat < 2 ^ 63 ∧ size ≤ limit.toNat := by
  have hlimit64 := limit.toNat_lt
  rw [toOffset]
  split <;> omega

/-- What is left, if the size exceeds both limits as offsets: the last `keep` bytes and the message,
or a part of the message. -/
theorem truncateLogFileDescriptor_of_exceeds (reads : Reads) (file : RegularFile)
    (logged : List Byte) {limit keep : UInt64}
    (hlimit : ¬(file.content.length : ℤ) ≤ toOffset limit)
    (hkeep : ¬(file.content.length : ℤ) ≤ toOffset keep) :
    truncateLogFileDescriptor reads file logged limit keep =
      if keep.toNat < 2 ^ 63 then
        some (file.content.drop (file.content.length - keep.toNat) ++ logged)
      else if 2 ^ 63 + file.content.length < keep.toNat then
        some (logged.drop (2 ^ 64 - keep.toNat))
      else none := by
  have hsize := file.size_lt
  have hkeep64 := keep.toNat_lt
  have hoffset : toOffset keep = if keep.toNat < 2 ^ 63 then (keep.toNat : ℤ)
    else keep.toNat - 2 ^ 64 := rfl
  split_ifs at hoffset ⊢ with hrange hfar
  · rw [truncateLogFileDescriptor_eq reads file logged limit keep hlimit hkeep (by omega), hoffset,
      List.drop_append_of_le_length (by omega)]
    congr 3
    omega
  · rw [truncateLogFileDescriptor_eq reads file logged limit keep hlimit hkeep (by omega), hoffset,
      List.drop_append, List.drop_eq_nil_of_le (by omega), List.nil_append]
    congr 2
    omega
  · rw [truncateLogFileDescriptor]
    dsimp only
    rw [if_neg hlimit, if_neg hkeep, if_pos (by omega)]

/-- For every regular file, message, limits and counts of the reads, the function leaves the file
unchanged if its size is within one of the limits, and otherwise just its last `keep` bytes, if and
only if the limits and the message are harmless. -/
theorem truncateLogFileDescriptor_iff (reads : Reads) (file : RegularFile) (logged : List Byte)
    (limit keep : UInt64) :
    truncateLogFileDescriptor reads file logged limit keep = some (kept file limit keep) ↔
      Harmless file logged limit keep := by
  have hsize := file.size_lt
  by_cases hlimit : (file.content.length : ℤ) ≤ toOffset limit
  · obtain ⟨hrange, hle⟩ := (le_toOffset_iff _ limit).mp hlimit
    have hall : kept file limit keep = file.content := if_pos (.inl hle)
    rw [hall]
    exact iff_of_true (if_pos hlimit) (.inl ⟨hrange, hle⟩)
  by_cases hkeep : (file.content.length : ℤ) ≤ toOffset keep
  · obtain ⟨hrange, hle⟩ := (le_toOffset_iff _ keep).mp hkeep
    have hall : kept file limit keep = file.content := if_pos (.inr hle)
    rw [hall]
    exact iff_of_true ((if_neg hlimit).trans (if_pos hkeep)) (.inr (.inl ⟨hrange, hle⟩))
  -- the size exceeds both limits as offsets
  rw [truncateLogFileDescriptor_of_exceeds reads file logged hlimit hkeep]
  rw [le_toOffset_iff] at hlimit hkeep
  rw [Harmless, or_iff_right hlimit, or_iff_right hkeep]
  by_cases hkeep63 : keep.toNat < 2 ^ 63
  · rw [if_pos hkeep63, Option.some.injEq]
    by_cases hlimit63 : limit.toNat < 2 ^ 63
    · have htail : kept file limit keep =
          file.content.drop (file.content.length - keep.toNat) := if_neg (by omega)
      rw [htail, List.append_right_eq_self]
      constructor
      · exact fun hlogged => .inl ⟨hlimit63, hkeep63, hlogged⟩
      · rintro (⟨-, -, hlogged⟩ | ⟨hnot, -⟩ | ⟨hnot, -⟩)
        · exact hlogged
        · omega
        · omega
    · have hall : kept file limit keep = file.content := if_pos (by omega)
      rw [hall]
      constructor
      · exact fun hsame => .inr (.inl ⟨by omega, hkeep63, hsame⟩)
      · rintro (⟨hnot, -⟩ | ⟨-, -, hsame⟩ | ⟨hnot, -⟩)
        · exact absurd hnot hlimit63
        · exact hsame
        · omega
  · have hall : kept file limit keep = file.content := if_pos (by omega)
    rw [if_neg hkeep63, hall]
    constructor
    · intro hsame
      split at hsame
      · rename_i hfar
        exact .inr (.inr ⟨hfar, Option.some.inj hsame⟩)
      · cases hsame
    · rintro (⟨-, hnot, -⟩ | ⟨-, hnot, -⟩ | ⟨hfar, hsame⟩)
      · exact absurd hnot hkeep63
      · exact absurd hnot hkeep63
      · rw [if_pos hfar, hsame]

/-- A file of three bytes, of which the reads return as much as they can. -/
def threeBytes : RegularFile := ⟨[97, 98, 99], by decide⟩

def fullReads : Reads := ⟨fun _ available => available, fun _ _ h => h, fun _ _ => Nat.le_refl _⟩

/-- A limit of `2 ^ 63` is a negative offset, and the file is emptied. -/
theorem truncateLogFileDescriptor_empties :
    truncateLogFileDescriptor fullReads threeBytes [] 0x8000000000000000 0 = some [] ∧
      truncateLogFileDescriptor fullReads threeBytes [] 0x8000000000000000 0 ≠
        some (kept threeBytes 0x8000000000000000 0) := by
  decide

/-- A message that goes to the file is kept too. -/
example : truncateLogFileDescriptor fullReads threeBytes [73, 10] 1 1 = some [99, 73, 10] ∧
    kept threeBytes 1 1 = [99] := by
  decide

end Truncation

end NgLog
