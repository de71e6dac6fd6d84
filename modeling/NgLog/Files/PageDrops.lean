import Mathlib.Data.Int.Order.Basic
import Mathlib.Data.List.Chain
import Mathlib.Data.List.Perm.Basic
import NgLog.Files.PageCache
import NgLog.Style.Storage
import NgLog.Support.Tiling
import NgLog.Support.Transition

/-!
# The account of the pages that are given back

`total_drop_length - dropped_mem_length_` is a difference of unsigned numbers. It must not be that
more has been given back than there is to give back, although the file may be replaced by another
one while the lock is released. This file shows that in every history the difference is what it
says, and that the ranges for a file tile it from its start and stop a mebibyte before its end.

The offset and the length of a range are signed. A range of `2 ^ 63` bytes is not possible in a
file, but it is in the account of one, which may be too large; then the length is negative and
nothing is given back. The next write closes such a file.

## Main definitions

* `DropsSound` — what the ranges for a file should be
* `Sound`, `NoUnderflow` — what should hold after every history
* `Tiled`, `Accounting` — the invariant

## Main results

* `Accounting.dropPages` — the invariant after a drop
* `accounting_step` — the invariant after a call
* `drops_sound` — every history is sound
-/

namespace NgLog

namespace PageCache

open Files (LogFileObject Context)
open Style (sizeModulus sizeSub sizeSub_of_le)
open Transition (run)

variable {s : PagedLogFile} {k length : ℕ} {ranges : List Advice}

/-! ### What should hold -/

/-- The ranges are for one file. They are contiguous from 0 and disjoint, and they stop a mebibyte
before its end. -/
structure DropsSound (k length : ℕ) (ranges : List Advice) : Prop where
  file : ∀ a ∈ ranges, a.file = k
  start : ∀ a ∈ ranges.head?, a.offset = 0
  contiguous : ranges.IsChain fun a b => b.offset = a.stop
  disjoint : ranges.Pairwise fun a b => a.stop ≤ b.offset
  kept : ∀ a ∈ ranges, a.stop + kMebibyte ≤ length

/-- The ranges are sound for the current file and for those before it, and exactly they are advised
or in flight. Nothing is accounted for a file that has no range. -/
structure Sound (s : PagedLogFile) : Prop where
  current : DropsSound s.object.closed.length s.object.fileLength s.ranges
  past : ∀ k f, s.finished[k]? = some f → DropsSound k f.fileLength f.ranges
  calls : (s.advised ++ s.inFlight).Perm (s.finished.flatMap (·.ranges) ++ s.ranges)
  none : s.object.file = none → s.ranges = []
  fresh : s.ranges = [] → s.droppedMemLength = 0

/-- When a write computes the differences, there is a mebibyte to keep, and no more has been given
back than there is to give back. -/
def NoUnderflow (s : PagedLogFile) (call : WriteCall) : Prop :=
  ∀ s', s.writeAndFlush call = (true, s') → s'.object.fileLength ≥ kMinimumDropFileLength →
    kMebibyte ≤ s'.object.fileLength &&& sizeNot (kMebibyte - 1) ∧
      s'.droppedMemLength ≤ totalDropLength s'.object.fileLength

/-! ### The arithmetic -/

/-- The lowest bits are masked. -/
theorem and_sizeNot {a : ℕ} (h : a < sizeModulus) :
    a &&& sizeNot (kMebibyte - 1) = a / kMebibyte * kMebibyte := by
  have hmask : sizeNot (kMebibyte - 1) = (2 ^ 44 - 1) <<< 20 := by decide
  have hmebibyte : kMebibyte = 2 ^ 20 := by decide
  have hfloor : a / kMebibyte * kMebibyte = (a >>> 20) <<< 20 := by
    rw [Nat.shiftRight_eq_div_pow, Nat.shiftLeft_eq, hmebibyte]
  rw [hmask, hfloor]
  refine Nat.eq_of_testBit_eq fun i => ?_
  rw [Nat.testBit_and, Nat.testBit_shiftLeft, Nat.testBit_shiftLeft, Nat.testBit_two_pow_sub_one,
    Nat.testBit_shiftRight]
  rcases Nat.lt_or_ge i 20 with hi | hi
  · simp [Nat.not_le.mpr hi]
  · rw [Nat.add_sub_cancel' hi]
    rcases Nat.lt_or_ge i 64 with hi' | hi'
    · simp only [hi, decide_true, Bool.true_and, show i - 20 < 44 by omega, Bool.and_true]
    · have hbit : a.testBit i = false :=
        Nat.testBit_lt_two_pow (Nat.lt_of_lt_of_le h (Nat.pow_le_pow_right (by decide) hi'))
      rw [hbit, Bool.false_and, Bool.and_false]

theorem totalDropLength_eq {fileLength : ℕ} (h : fileLength < sizeModulus)
    (hmin : fileLength ≥ kMebibyte) :
    totalDropLength fileLength = fileLength / kMebibyte * kMebibyte - kMebibyte := by
  have hpos : 0 < kMebibyte := by decide
  have hfloor : fileLength / kMebibyte * kMebibyte ≤ fileLength := Nat.div_mul_le_self ..
  have hle : 1 * kMebibyte ≤ fileLength / kMebibyte * kMebibyte :=
    Nat.mul_le_mul_right _ ((Nat.one_le_div_iff hpos).mpr hmin)
  rw [totalDropLength, and_sizeNot h]
  exact sizeSub_of_le (by omega) (by omega)

theorem dvd_totalDropLength {fileLength : ℕ} (h : fileLength < sizeModulus)
    (hmin : fileLength ≥ kMebibyte) : kMebibyte ∣ totalDropLength fileLength := by
  rw [totalDropLength_eq h hmin]
  exact Nat.dvd_sub (Nat.dvd_mul_left ..) (Nat.dvd_refl _)

/-- One to two mebibytes are kept. -/
theorem totalDropLength_add_le {fileLength : ℕ} (h : fileLength < sizeModulus)
    (hmin : fileLength ≥ kMebibyte) : totalDropLength fileLength + kMebibyte ≤ fileLength := by
  have hpos : 0 < kMebibyte := by decide
  have hfloor : fileLength / kMebibyte * kMebibyte ≤ fileLength := Nat.div_mul_le_self ..
  have hle : 1 * kMebibyte ≤ fileLength / kMebibyte * kMebibyte :=
    Nat.mul_le_mul_right _ ((Nat.one_le_div_iff hpos).mpr hmin)
  rw [totalDropLength_eq h hmin]
  omega

/-- A multiple of a mebibyte that leaves one is not more than there is to give back. -/
theorem le_totalDropLength {fileLength dropped : ℕ} (h : fileLength < sizeModulus)
    (hdvd : kMebibyte ∣ dropped) (hle : dropped + kMebibyte ≤ fileLength) :
    dropped ≤ totalDropLength fileLength := by
  have hpos : 0 < kMebibyte := by decide
  obtain ⟨m, rfl⟩ := hdvd
  have hm : (m + 1) * kMebibyte ≤ fileLength / kMebibyte * kMebibyte := by
    refine Nat.mul_le_mul_right _ ((Nat.le_div_iff_mul_le hpos).mpr ?_)
    rw [Nat.succ_mul, Nat.mul_comm]
    exact hle
  rw [totalDropLength_eq h (by omega)]
  rw [Nat.succ_mul] at hm
  rw [Nat.mul_comm]
  omega

theorem toOff_of_lt {a : ℕ} (h : a < 2 ^ 63) : toOff a = a := if_pos h

/-- A larger number is negative. -/
theorem toOff_of_le {a : ℕ} (h : 2 ^ 63 ≤ a) (hlt : a < sizeModulus) : toOff a < 0 := by
  have hmodulus : sizeModulus = 2 ^ 64 := rfl
  rw [toOff, if_neg (Nat.not_lt.mpr h)]
  omega

/-! ### The invariant -/

/-- The interval of a range. -/
def Advice.interval (a : Advice) : ℤ × ℤ := (a.offset, a.stop)

/-- The ranges tile what has been given back. -/
structure Tiled (k length dropped : ℕ) (ranges : List Advice) : Prop where
  file : ∀ a ∈ ranges, a.file = k
  tiles : Tiles 0 (ranges.map Advice.interval) (dropped : ℤ)
  kept : ∀ a ∈ ranges, a.stop + kMebibyte ≤ length
  aligned : kMebibyte ∣ dropped
  below : dropped = 0 ∨ dropped + kMebibyte ≤ length

/-- The current file is tiled, unless its account is so large that the next write closes it. -/
structure Accounting (s : PagedLogFile) : Prop where
  length_lt : s.object.fileLength < sizeModulus
  none : s.object.file = none →
    s.ranges = [] ∧ s.droppedMemLength = 0 ∧ s.object.fileLength < 2 ^ 63
  current : Tiled s.object.closed.length s.object.fileLength s.droppedMemLength s.ranges ∨
    s.ranges ≠ [] ∧ 2 ^ 63 ≤ s.object.fileLength ∧
      DropsSound s.object.closed.length s.object.fileLength s.ranges
  finished_length : s.finished.length = s.object.closed.length
  past : ∀ k f, s.finished[k]? = some f → DropsSound k f.fileLength f.ranges
  calls : (s.advised ++ s.inFlight).Perm (s.finished.flatMap (·.ranges) ++ s.ranges)

theorem tiled_nil : Tiled k length 0 [] where
  file := nofun
  tiles := rfl
  kept := nofun
  aligned := Nat.dvd_zero _
  below := .inl rfl

/-- A file may grow. -/
theorem Tiled.mono {length' dropped : ℕ} (h : Tiled k length dropped ranges)
    (hle : length ≤ length') : Tiled k length' dropped ranges where
  file := h.file
  tiles := h.tiles
  kept a ha := le_trans (h.kept a ha) (Int.ofNat_le.mpr hle)
  aligned := h.aligned
  below := h.below.imp_right fun hbelow => Nat.le_trans hbelow hle

theorem Tiled.sound {dropped : ℕ} (h : Tiled k length dropped ranges) :
    DropsSound k length ranges where
  file := h.file
  start a ha := h.tiles.head a.interval (by rw [List.head?_map, Option.mem_def.mp ha]; rfl)
  contiguous := (List.isChain_map _).mp h.tiles.isChain
  disjoint := List.pairwise_map.mp h.tiles.pairwise
  kept := h.kept

/-- Another range may follow, also an empty one. -/
theorem Tiled.sound_concat {dropped : ℕ} {a : Advice} (h : Tiled k length dropped ranges)
    (hfile : a.file = k) (hoffset : a.offset = dropped) (hkept : a.stop + kMebibyte ≤ length) :
    DropsSound k length (ranges ++ [a]) where
  file b hb := by
    rcases List.mem_append.mp hb with hb | hb
    · exact h.file b hb
    · exact List.mem_singleton.mp hb ▸ hfile
  start b hb := by
    cases ranges with
    | nil =>
      obtain rfl : a = b := Option.some.inj hb
      have hdropped : (0 : ℤ) = dropped := h.tiles
      rw [hoffset, hdropped]
    | cons c ranges => exact h.sound.start b hb
  contiguous := by
    refine List.isChain_append.mpr ⟨h.sound.contiguous, .singleton a, fun b hb c hc => ?_⟩
    obtain rfl : a = c := Option.some.inj hc
    have hlast := h.tiles.getLast b.interval (by rw [List.getLast?_map, Option.mem_def.mp hb]; rfl)
    exact hoffset.trans hlast.symm
  disjoint := by
    refine List.pairwise_append.mpr ⟨h.sound.disjoint, List.pairwise_singleton ..,
      fun b hb c hc => ?_⟩
    rw [List.mem_singleton.mp hc, hoffset]
    exact (h.tiles.bounds.2 b.interval (List.mem_map_of_mem hb)).2
  kept b hb := by
    rcases List.mem_append.mp hb with hb | hb
    · exact h.kept b hb
    · exact List.mem_singleton.mp hb ▸ hkept

/-! ### The invariant after each function -/

theorem accounting_init (baseFilename : Option (List Byte)) :
    Accounting (PagedLogFile.init baseFilename) where
  length_lt := (by decide : 0 < sizeModulus)
  none _ := ⟨rfl, rfl, (by decide : 0 < 2 ^ 63)⟩
  current := .inl tiled_nil
  finished_length := rfl
  past _ _ h := nomatch h
  calls := .nil

/-- The ranges for the current file are sound in both cases. -/
theorem Accounting.drops (h : Accounting s) :
    DropsSound s.object.closed.length s.object.fileLength s.ranges := by
  obtain hcurrent | ⟨-, -, hcurrent⟩ := h.current
  · exact hcurrent.sound
  · exact hcurrent

/-- A file that is closed is put with those before it, and the account starts again. -/
theorem Accounting.closeFile (h : Accounting s) : Accounting s.closeFile := by
  have hpos : 0 < sizeModulus := by decide
  have hpos' : 0 < 2 ^ 63 := by decide
  rcases hfile : s.object.file with _ | f
  · have hclosed : s.closeFile.object.closed = s.object.closed := by
      simp [LogFileObject.closeFile, hfile]
    have hfinished : s.closeFile.finished = s.finished := by
      simp [PagedLogFile.closeFile, hfile]
    refine ⟨hpos, fun _ => ⟨rfl, rfl, hpos'⟩, .inl tiled_nil, ?_, ?_, ?_⟩
    · rw [hclosed, hfinished]
      exact h.finished_length
    · rw [hfinished]
      exact h.past
    · have hcalls := h.calls
      rw [(h.none hfile).1] at hcalls
      rw [hfinished]
      exact hcalls
  · have hclosed : s.closeFile.object.closed = s.object.closed ++ [f] := by
      simp [LogFileObject.closeFile, hfile]
    have hfinished : s.closeFile.finished =
        s.finished ++ [⟨s.object.fileLength, s.ranges⟩] := by
      simp [PagedLogFile.closeFile, hfile]
    refine ⟨hpos, fun _ => ⟨rfl, rfl, hpos'⟩, .inl tiled_nil, ?_, fun k f hf => ?_, ?_⟩
    · rw [hclosed, hfinished, List.length_append, List.length_append, h.finished_length]
      rfl
    · rw [hfinished, List.getElem?_append] at hf
      split at hf
      · exact h.past k f hf
      · rename_i hk
        obtain ⟨hlt, heq⟩ := List.getElem?_eq_some_iff.mp hf
        obtain rfl : k = s.finished.length := by
          simp only [List.length_singleton] at hlt
          omega
        simp only [Nat.sub_self, List.getElem_cons_zero] at heq
        rw [← heq, h.finished_length]
        exact h.drops
    · rw [hfinished, List.flatMap_append, List.flatMap_singleton]
      exact h.calls.trans (.of_eq (List.append_nil _).symm)

theorem Accounting.discardFileIfInherited (h : Accounting s) (pid : ℕ) :
    Accounting (s.discardFileIfInherited pid) := by
  rw [PagedLogFile.discardFileIfInherited]
  split
  · exact h.closeFile
  · exact h

theorem Accounting.setBasename (h : Accounting s) (pid : ℕ) (basename : List Byte) :
    Accounting (s.setBasename pid basename) := by
  have hselected : Accounting { s with object := { s.object with filenameSource := .selected } } :=
    ⟨h.length_lt, h.none, h.current, h.finished_length, h.past, h.calls⟩
  simp only [PagedLogFile.setBasename]
  split
  · have hclosed := (hselected.discardFileIfInherited pid).closeFile
    exact ⟨hclosed.length_lt, hclosed.none, hclosed.current, hclosed.finished_length, hclosed.past,
      hclosed.calls⟩
  · exact hselected

theorem Accounting.setExtension (h : Accounting s) (pid : ℕ) (ext : List Byte) :
    Accounting (s.setExtension pid ext) := by
  simp only [PagedLogFile.setExtension]
  split
  · have hclosed := (h.discardFileIfInherited pid).closeFile
    exact ⟨hclosed.length_lt, hclosed.none, hclosed.current, hclosed.finished_length, hclosed.past,
      hclosed.calls⟩
  · exact h

theorem Accounting.flushUnlocked (h : Accounting s) (pid : ℕ) (now logbufsecs : ℤ) :
    Accounting (s.flushUnlocked pid now logbufsecs) := by
  have hdiscard := h.discardFileIfInherited pid
  rw [PagedLogFile.flushUnlocked]
  split <;>
    exact ⟨hdiscard.length_lt, hdiscard.none, hdiscard.current, hdiscard.finished_length,
      hdiscard.past, hdiscard.calls⟩

/-- The system call of a thread that has released the lock. -/
theorem Accounting.posixFadvise (h : Accounting s) {i : ℕ} {a : Advice}
    (ha : s.inFlight[i]? = some a) :
    Accounting { s with inFlight := s.inFlight.eraseIdx i, advised := s.advised ++ [a] } := by
  refine ⟨h.length_lt, h.none, h.current, h.finished_length, h.past, ?_⟩
  obtain ⟨hi, rfl⟩ := List.getElem?_eq_some_iff.mp ha
  refine .trans ?_ h.calls
  rw [List.append_assoc]
  exact .append_left _ (List.getElem_cons_eraseIdx_perm hi)

/-! ### The invariant after a write -/

/-- The files whose next message does not close them have less than 4095 mebibytes. -/
theorem length_lt_of_reachesMax {flags : Files.Flags} (h : ¬Files.reachesMax flags length = true) :
    length < 2 ^ 32 := by
  have hmax : Files.maxLogSize flags ≤ 4095 := by
    rw [Files.maxLogSize]
    split
    · decide
    · split <;> omega
  rw [Files.reachesMax, decide_eq_true_eq, Files.kMebibyteShift, Nat.shiftRight_eq_div_pow] at h
  omega

/-- The state between two parts of a write: the file is tiled, and a signed number can say how
far. -/
structure Ready (s : PagedLogFile) : Prop where
  accounting : Accounting s
  tiled : Tiled s.object.closed.length s.object.fileLength s.droppedMemLength s.ranges
  dropped_lt : s.droppedMemLength < 2 ^ 63

/-- A file whose account is too large is closed. -/
theorem Accounting.rollOver (h : Accounting s) (flags : Files.Flags) :
    Ready (s.rollOver flags) ∧ (s.rollOver flags).object.fileLength < 2 ^ 32 := by
  rw [PagedLogFile.rollOver]
  split
  · exact ⟨⟨h.closeFile, tiled_nil, (by decide : 0 < 2 ^ 63)⟩, (by decide : 0 < 2 ^ 32)⟩
  · rename_i hmax
    have hlength := length_lt_of_reachesMax hmax
    have htiled := h.current.resolve_right fun hlong => absurd hlong.2.1 (by omega)
    refine ⟨⟨h, htiled, ?_⟩, hlength⟩
    rcases htiled.below with hzero | hbelow <;> omega

/-- The account of a file that is open changes. It grows, unless nothing has been given back yet. -/
theorem Ready.setObject (h : Ready s) {o : LogFileObject} (bytesSinceFlush : ℕ)
    (hclosed : o.closed = s.object.closed)
    (hgrow : s.object.fileLength ≤ o.fileLength ∨ s.ranges = [] ∧ s.droppedMemLength = 0)
    (hlength : o.fileLength < sizeModulus)
    (hnone : o.file = none → s.object.file = none ∧ o.fileLength < 2 ^ 63) :
    Ready { s with object := o, bytesSinceFlush := bytesSinceFlush } := by
  have htiled : Tiled o.closed.length o.fileLength s.droppedMemLength s.ranges := by
    rw [hclosed]
    rcases hgrow with hle | ⟨hranges, hdropped⟩
    · exact h.tiled.mono hle
    · rw [hranges, hdropped]
      exact tiled_nil
  refine ⟨⟨hlength, fun ho => ?_, .inl htiled, ?_, h.accounting.past, h.accounting.calls⟩, htiled,
    h.dropped_lt⟩
  · obtain ⟨hfile, hlt⟩ := hnone ho
    obtain ⟨hranges, hdropped, -⟩ := h.accounting.none hfile
    exact ⟨hranges, hdropped, hlt⟩
  · exact h.accounting.finished_length.trans (congrArg _ hclosed.symm)

/-- In the middle of a write a new file may have taken the place of none. -/
theorem Ready.ensureFile (h : Ready s) (call : WriteCall) (hlength : s.object.fileLength < 2 ^ 32) :
    Ready (s.ensureFile call.ctx).2 ∧ ((s.ensureFile call.ctx).1 = true →
      (s.ensureFile call.ctx).2.object.file.isSome = true ∧
        (s.ensureFile call.ctx).2.object.fileLength + call.message.length < sizeModulus) := by
  have hmemory := call.memory_lt
  have hmodulus : sizeModulus = 2 ^ 64 := rfl
  obtain ⟨bytesSinceFlush, hensure⟩ := ensureFile_eq s call.ctx
  rw [hensure]
  rcases hfile : s.object.file with _ | f
  · obtain ⟨hranges, hdropped, hlt⟩ := h.accounting.none hfile
    obtain ⟨hclosed, ⟨hresult, hnone, hlt⟩ | ⟨-, hsome, -, hlt⟩⟩ :=
      ensureFile_of_none call hfile hlt (Nat.le_refl _)
    · refine ⟨h.setObject bytesSinceFlush hclosed (.inr ⟨hranges, hdropped⟩) (by omega)
        fun _ => ⟨hfile, hlt⟩, fun htrue => ?_⟩
      exact absurd (hresult.symm.trans htrue) Bool.false_ne_true
    · refine ⟨h.setObject bytesSinceFlush hclosed (.inr ⟨hranges, hdropped⟩) (by omega)
        fun hnone => ?_, fun _ => ⟨hsome, ?_⟩⟩
      · exact absurd hnone (Option.isSome_iff_ne_none.mp hsome)
      · show (s.object.ensureFile call.ctx).2.fileLength + call.message.length < sizeModulus
        omega
  · have hsome : s.object.file.isSome = true := hfile ▸ rfl
    rw [ensureFile_of_some hsome]
    refine ⟨h.setObject bytesSinceFlush rfl (.inl (Nat.le_refl _)) h.accounting.length_lt
      fun hnone => absurd hnone (Option.isSome_iff_ne_none.mp hsome), fun _ => ⟨hsome, ?_⟩⟩
    show s.object.fileLength + call.message.length < sizeModulus
    omega

theorem Ready.writeMessage (h : Ready s) {message : List Byte}
    (hfile : s.object.file.isSome = true)
    (hlength : s.object.fileLength + message.length < sizeModulus) :
    Ready (s.writeMessage message) := by
  refine h.setObject _ rfl (.inl (Nat.le_add_right _ message.length)) hlength fun hnone => ?_
  obtain ⟨f, hf⟩ := Option.isSome_iff_exists.mp hfile
  have hmessage : (s.object.writeMessage false message).file.isSome = true := by
    simp [LogFileObject.writeMessage, hf]
  exact absurd hnone (Option.isSome_iff_ne_none.mp hmessage)

/-- A flush in the process that has opened the file. -/
theorem Ready.flushUnlocked (h : Ready s) {pid : ℕ} (now logbufsecs : ℤ)
    (hpid : s.object.filePid = pid) : Ready (s.flushUnlocked pid now logbufsecs) := by
  have hflush := h.accounting.flushUnlocked pid now logbufsecs
  have hdiscard : s.discardFileIfInherited pid = s := if_neg fun hinherited => hinherited.2 hpid
  rw [PagedLogFile.flushUnlocked, hdiscard] at hflush ⊢
  split at hflush
  all_goals
    rename_i hsome
    simp only [hsome, if_true, if_false, Bool.false_eq_true]
    exact ⟨hflush, h.tiled, h.dropped_lt⟩

/-- The parts of a write up to the flush. If it goes on, the file is open. -/
theorem Accounting.writeAndFlush (h : Accounting s) (call : WriteCall) :
    Accounting (s.writeAndFlush call).2 ∧ ((s.writeAndFlush call).1 = true →
      Ready (s.writeAndFlush call).2 ∧ (s.writeAndFlush call).2.object.file.isSome = true) := by
  rw [PagedLogFile.writeAndFlush]
  split
  · exact ⟨h, fun hfalse => absurd hfalse Bool.false_ne_true⟩
  obtain ⟨hroll, hlength⟩ := (h.discardFileIfInherited call.ctx.pid).rollOver call.ctx.flags
  have hpid := filePid_rollOver s call.ctx.pid call.ctx.flags
  dsimp only
  generalize (s.discardFileIfInherited call.ctx.pid).rollOver call.ctx.flags = s at *
  obtain ⟨hensure, hopen⟩ := hroll.ensureFile call hlength
  have hpid := filePid_ensureFile call hpid
  obtain ⟨bytes, heq⟩ := ensureFile_eq s call.ctx
  rw [heq] at hensure hopen ⊢
  generalize s.object.ensureFile call.ctx = result at *
  obtain ⟨_ | _, o⟩ := result
  · exact ⟨hensure.accounting, fun hfalse => absurd hfalse Bool.false_ne_true⟩
  obtain ⟨hfile, hlength⟩ := hopen rfl
  have hwrite := hensure.writeMessage hfile hlength
  dsimp only
  split
  · exact ⟨hensure.accounting, fun hfalse => absurd hfalse Bool.false_ne_true⟩
  split
  · exact ⟨hensure.accounting, fun hfalse => absurd hfalse Bool.false_ne_true⟩
  split
  · have hflush := hwrite.flushUnlocked call.timestamp call.logbufsecs (hpid rfl)
    refine ⟨hflush.accounting, fun _ => ⟨hflush, ?_⟩⟩
    rw [object_flushUnlocked _ _ _ (hpid rfl)]
    exact Option.isSome_map.trans hfile
  · exact ⟨hwrite.accounting, fun hfalse => absurd hfalse Bool.false_ne_true⟩

/-- The difference is what it says. -/
theorem Ready.le_totalDropLength (h : Ready s) :
    s.droppedMemLength ≤ totalDropLength s.object.fileLength := by
  rcases h.tiled.below with hzero | hbelow
  · rw [hzero]
    exact Nat.zero_le _
  · exact PageCache.le_totalDropLength h.accounting.length_lt h.tiled.aligned hbelow

/-- The range that a drop adds. -/
def nextAdvice (s : PagedLogFile) : Advice where
  file := s.object.closed.length
  offset := toOff s.droppedMemLength
  length := toOff (sizeSub (totalDropLength s.object.fileLength) s.droppedMemLength)

/-- A range that a signed number can measure continues the tiling. A longer one, which only an
account of `2 ^ 63` bytes makes possible, is empty. -/
theorem Ready.concat (h : Ready s) (hmin : s.object.fileLength ≥ kMinimumDropFileLength) :
    Tiled s.object.closed.length s.object.fileLength (totalDropLength s.object.fileLength)
        (s.ranges ++ [nextAdvice s]) ∨
      2 ^ 63 ≤ s.object.fileLength ∧
        DropsSound s.object.closed.length s.object.fileLength (s.ranges ++ [nextAdvice s]) := by
  have hlt := h.accounting.length_lt
  have hle := h.le_totalDropLength
  have hmebibyte : s.object.fileLength ≥ kMebibyte :=
    Nat.le_trans (by decide : kMebibyte ≤ kMinimumDropFileLength) hmin
  have htotal := totalDropLength_add_le hlt hmebibyte
  have hthis : sizeSub (totalDropLength s.object.fileLength) s.droppedMemLength =
      totalDropLength s.object.fileLength - s.droppedMemLength := sizeSub_of_le hle (by omega)
  have hoffset : (nextAdvice s).offset = s.droppedMemLength := toOff_of_lt h.dropped_lt
  rcases Nat.lt_or_ge (totalDropLength s.object.fileLength - s.droppedMemLength) (2 ^ 63) with
    hshort | hlong
  · have hstop : (nextAdvice s).stop = totalDropLength s.object.fileLength := by
      have hlength : (nextAdvice s).length =
          (totalDropLength s.object.fileLength - s.droppedMemLength : ℕ) := by
        rw [nextAdvice, hthis]
        exact toOff_of_lt hshort
      rw [Advice.stop, hoffset, hlength]
      omega
    have hsound := h.tiled.sound_concat rfl hoffset (by rw [hstop]; omega)
    have hinterval : (nextAdvice s).interval =
        ((s.droppedMemLength : ℤ), (totalDropLength s.object.fileLength : ℤ)) := by
      rw [Advice.interval, hoffset, hstop]
    refine .inl ⟨hsound.file, ?_, hsound.kept, dvd_totalDropLength hlt hmebibyte, .inr htotal⟩
    rw [List.map_append, List.map_singleton, hinterval]
    exact h.tiled.tiles.concat (Int.ofNat_le.mpr hle)
  · have hlength : (nextAdvice s).length < 0 := by
      rw [nextAdvice, hthis]
      exact toOff_of_le hlong (by omega)
    refine .inr ⟨by omega, h.tiled.sound_concat rfl hoffset ?_⟩
    rw [Advice.stop, hoffset]
    rcases h.tiled.below with hzero | hbelow <;> omega

/-- A drop keeps the invariant. What there is to give back goes to the system call at once or is in
flight. -/
theorem Ready.dropPages (h : Ready s) (hfile : s.object.file.isSome = true) (call : WriteCall) :
    Accounting (s.dropPages call) := by
  simp only [PagedLogFile.dropPages]
  split
  · rename_i hdrop
    split
    · have hcurrent := (h.concat hdrop.2).imp_right fun hlong =>
        (⟨List.append_ne_nil_of_right_ne_nil _ (List.cons_ne_nil _ _), hlong⟩ :
          s.ranges ++ [nextAdvice s] ≠ [] ∧ _)
      have hnone : s.object.file = none → s.ranges ++ [nextAdvice s] = [] ∧
          totalDropLength s.object.fileLength = 0 ∧ s.object.fileLength < 2 ^ 63 :=
        fun hnone => absurd hnone (Option.isSome_iff_ne_none.mp hfile)
      have hcalls : (s.advised ++ s.inFlight ++ [nextAdvice s]).Perm
          (s.finished.flatMap (·.ranges) ++ (s.ranges ++ [nextAdvice s])) := by
        rw [← List.append_assoc]
        exact h.accounting.calls.append_right _
      split
      · refine ⟨h.accounting.length_lt, hnone, hcurrent, h.accounting.finished_length,
          h.accounting.past, ?_⟩
        rw [List.append_assoc] at hcalls
        exact hcalls
      · refine ⟨h.accounting.length_lt, hnone, hcurrent, h.accounting.finished_length,
          h.accounting.past, .trans ?_ hcalls⟩
        show (s.advised ++ [nextAdvice s] ++ s.inFlight).Perm _
        rw [List.append_assoc, List.append_assoc]
        exact .append_left _ List.perm_append_comm
    · exact h.accounting
  · exact h.accounting

/-! ### Every history -/

/-- A call keeps the invariant. -/
theorem accounting_step (s : PagedLogFile) (c : Call) (s' : PagedLogFile) (h : Accounting s)
    (hstep : step s c = some s') : Accounting s' := by
  cases c with
  | write call =>
    obtain rfl : s.writeUnlocked call = s' := Option.some.inj hstep
    obtain ⟨haccounting, hready⟩ := h.writeAndFlush call
    rw [PagedLogFile.writeUnlocked]
    rcases hresult : s.writeAndFlush call with ⟨_ | _, s'⟩ <;>
      rw [hresult] at haccounting hready
    · exact haccounting
    · obtain ⟨hready, hfile⟩ := hready rfl
      exact hready.dropPages hfile call
  | flush pid now logbufsecs =>
    obtain rfl : s.flushUnlocked pid now logbufsecs = s' := Option.some.inj hstep
    exact h.flushUnlocked pid now logbufsecs
  | setBasename pid basename =>
    obtain rfl : s.setBasename pid basename = s' := Option.some.inj hstep
    exact h.setBasename pid basename
  | setExtension pid ext =>
    obtain rfl : s.setExtension pid ext = s' := Option.some.inj hstep
    exact h.setExtension pid ext
  | posixFadvise i =>
    obtain ⟨a, ha, rfl⟩ := Option.map_eq_some_iff.mp hstep
    exact h.posixFadvise ha

theorem Accounting.sound (h : Accounting s) : Sound s where
  current := h.drops
  past := h.past
  calls := h.calls
  none hfile := (h.none hfile).1
  fresh hranges := by
    obtain hcurrent | ⟨hne, -⟩ := h.current
    · have htiles := hcurrent.tiles
      rw [hranges] at htiles
      exact Int.ofNat.inj (tiles_nil.mp htiles).symm
    · exact absurd hranges hne

theorem Accounting.noUnderflow (h : Accounting s) (call : WriteCall) : NoUnderflow s call := by
  intro s' hresult hmin
  obtain ⟨hready, -⟩ := (h.writeAndFlush call).2 (hresult ▸ rfl)
  rw [hresult] at hready
  refine ⟨?_, hready.le_totalDropLength⟩
  rw [and_sizeNot hready.accounting.length_lt]
  have hone : 1 ≤ s'.object.fileLength / kMebibyte :=
    (Nat.one_le_div_iff (by decide)).mpr
      (Nat.le_trans (by decide : kMebibyte ≤ kMinimumDropFileLength) hmin)
  exact Nat.le_trans (Nat.le_of_eq (Nat.one_mul _).symm) (Nat.mul_le_mul_right _ hone)

/-- After every history of a new object, whatever other threads do while the lock is released, the
ranges are sound, and so is the difference that the next write computes. -/
theorem drops_sound (baseFilename : Option (List Byte)) (history : List Call) (s : PagedLogFile)
    (h : run step (PagedLogFile.init baseFilename) history = some s) :
    Sound s ∧ ∀ call, NoUnderflow s call := by
  have haccounting := Transition.run_invariant_all accounting_step (accounting_init baseFilename) h
  exact ⟨haccounting.sound, haccounting.noUnderflow⟩

/-- A write that finds a file of this size, and has the message flushed. -/
def reopening (size : ℕ) (h : size < 2 ^ 63) : WriteCall where
  ctx :=
    { flags := ⟨false, false, false, 100⟩
      pid := 1
      selected := ⟨some size, true, true, true, true⟩
      directories := []
      header := none
      stopWriting := false }
  forceFlush := true
  timestamp := 0
  message := [104, 105]
  logbufsecs := 30
  dropLogMemory := true
  diskFull := false
  duplicates := true
  memory_lt := (by decide : 0 + 2 < 2 ^ 63)
  selected_lt := by
    rintro _ ⟨⟩
    exact h
  directories_lt := nofun

/-- The file is replaced by another one before the system call for it has been made. -/
def replacedInFlight : List Call :=
  [.write (reopening (5 * kMebibyte) (by decide)), .setExtension 1 [46],
    .write (reopening (9 * kMebibyte) (by decide)), .posixFadvise 1, .posixFadvise 0]

theorem drops_replacedInFlight : ∃ s,
    run step (PagedLogFile.init (some [108, 111, 103])) replacedInFlight = some s ∧
      s.advised.map (fun a => (a.file, a.offset, a.stop)) = [(1, 0, 8388608), (0, 0, 4194304)] ∧
      Sound s ∧ ∀ call, NoUnderflow s call :=
  ⟨_, rfl, rfl, drops_sound (some [108, 111, 103]) replacedInFlight _ rfl⟩

end PageCache

end NgLog
