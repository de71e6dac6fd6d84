import Mathlib.Algebra.Ring.Int.Defs
import NgLog.Files.Accounting
import NgLog.Style.Recorder

/-!
# Dropping the pages of a log file

A log file is flushed every now and then, and after that the pages that hold all but its last one to
two mebibytes are given back with `posix_fadvise`. `dropped_mem_length_` says how much has been
given back. The lock is released while the system call runs, so that other threads can write to the
file, have it flushed or have it replaced by another one; if the descriptor cannot be duplicated,
the lock is kept.

This is the build for Linux. What `LogFileObject` does to the file itself is taken from the model of
log files; here are the fields for flushing and dropping. A system call that runs without the lock
is in flight until it is made. A file that is opened again counts as another one. After a fork, what
was in flight is left to the parent; that it is still listed does no harm.

## Main definitions

* `PagedLogFile`, `Advice` — the class with the fields for flushing and dropping, and a range
* `flushUnlocked`, `dropPages`, `writeUnlocked`, `setBasename`, `setExtension` — the functions
* `Call`, `step` — a call of one of them, or the system call of a thread that has released the lock

## Main results

* `object_writeUnlocked` — what a write does to the file itself
-/

namespace NgLog

namespace PageCache

open Files (LogFileObject Context)
open Style (sizeModulus sizeSub)

/-! ### Data -/

/-- A call of `posix_fadvise`, with the file that it is for, by number. -/
structure Advice where
  file : ℕ
  offset : ℤ
  length : ℤ

/-- The end of the range. -/
def Advice.stop (a : Advice) : ℤ := a.offset + a.length

/-- What has been given back of a file, and its account when it was closed. -/
structure Finished where
  fileLength : ℕ
  ranges : List Advice

/-- `LogFileObject`, with the fields for flushing and dropping. -/
structure PagedLogFile where
  object : LogFileObject
  bytesSinceFlush : ℕ
  droppedMemLength : ℕ
  nextFlushTime : ℤ
  /-- Ghost: the ranges for the current file, in order. -/
  ranges : List Advice
  /-- Ghost: those of the files that have been closed. -/
  finished : List Finished
  /-- The system calls of the threads that have released the lock. -/
  inFlight : List Advice
  /-- Ghost: the system calls that have been made. -/
  advised : List Advice

/-- A call of `Write`, and what it finds. What is in memory together has less than `2 ^ 63` bytes,
and so has a file. -/
structure WriteCall where
  ctx : Context
  forceFlush : Bool
  timestamp : ℤ
  message : List Byte
  logbufsecs : ℤ
  dropLogMemory : Bool
  /-- The disk is full, and logging is to stop then. -/
  diskFull : Bool
  /-- `F_DUPFD_CLOEXEC` succeeds. -/
  duplicates : Bool
  memory_lt : (ctx.header.getD []).length + message.length < 2 ^ 63
  selected_lt : ∀ size ∈ ctx.selected.existing, size < 2 ^ 63
  directories_lt : ∀ d ∈ ctx.directories, ∀ size ∈ d.2.existing, size < 2 ^ 63

def kMebibyte : ℕ := 1 <<< Files.kMebibyteShift

def kFlushBytes : ℕ := 1000000

/-- Only files of this length are considered. -/
def kMinimumDropFileLength : ℕ := 3 * kMebibyte

def kMinimumDropLength : ℕ := 2 * kMebibyte

def kNanosecondsPerSecond : ℤ := 1000000000

/-- The complement of a `std::size_t`. -/
def sizeNot (a : ℕ) : ℕ := sizeModulus - 1 - a

/-- A `std::size_t` as an `off_t`. -/
def toOff (a : ℕ) : ℤ := if a < 2 ^ 63 then a else (a : ℤ) - 2 ^ 64

/-- `total_drop_length`, as it is computed. -/
def totalDropLength (fileLength : ℕ) : ℕ :=
  sizeSub (fileLength &&& sizeNot (kMebibyte - 1)) kMebibyte

namespace PagedLogFile

/-- The constructor. -/
def init (baseFilename : Option (List Byte)) : PagedLogFile :=
  { object := .init baseFilename
    bytesSinceFlush := 0
    droppedMemLength := 0
    nextFlushTime := 0
    ranges := []
    finished := []
    inFlight := []
    advised := [] }

/-! ### Closing a file -/

/-- The file is closed. -/
def closeFile (s : PagedLogFile) : PagedLogFile :=
  { s with
    object := s.object.closeFile
    bytesSinceFlush := 0
    droppedMemLength := 0
    ranges := []
    finished := s.finished ++ s.object.file.toList.map fun _ => ⟨s.object.fileLength, s.ranges⟩ }

/-- `DiscardFileIfInherited`. -/
def discardFileIfInherited (s : PagedLogFile) (pid : ℕ) : PagedLogFile :=
  if s.object.file.isSome ∧ s.object.filePid ≠ pid then s.closeFile else s

/-- `SetBasename`. -/
def setBasename (s : PagedLogFile) (pid : ℕ) (basename : List Byte) : PagedLogFile :=
  let s := { s with object := { s.object with filenameSource := .selected } }
  if s.object.baseFilename ≠ basename then
    let s := (s.discardFileIfInherited pid).closeFile
    { s with object := { s.object with baseFilename := basename } }
  else s

/-- `SetExtension`. -/
def setExtension (s : PagedLogFile) (pid : ℕ) (ext : List Byte) : PagedLogFile :=
  if s.object.filenameExtension ≠ ext then
    let s := (s.discardFileIfInherited pid).closeFile
    { s with object := { s.object with filenameExtension := ext } }
  else s

/-! ### Flushing and dropping -/

/-- `FlushUnlocked`. -/
def flushUnlocked (s : PagedLogFile) (pid : ℕ) (now logbufsecs : ℤ) : PagedLogFile :=
  let s := s.discardFileIfInherited pid
  let s := if s.object.file.isSome then { s with bytesSinceFlush := 0 } else s
  { s with nextFlushTime := now + logbufsecs * kNanosecondsPerSecond }

/-- The end of `WriteUnlocked`, after the flush. With a duplicate of the descriptor, the system call
is in flight; without one, it is made at once. -/
def dropPages (s : PagedLogFile) (call : WriteCall) : PagedLogFile :=
  if call.dropLogMemory ∧ s.object.fileLength ≥ kMinimumDropFileLength then
    let totalDropLength := totalDropLength s.object.fileLength
    let thisDropLength := sizeSub totalDropLength s.droppedMemLength
    if thisDropLength ≥ kMinimumDropLength then
      let advice : Advice :=
        ⟨s.object.closed.length, toOff s.droppedMemLength, toOff thisDropLength⟩
      let s := { s with droppedMemLength := totalDropLength, ranges := s.ranges ++ [advice] }
      if call.duplicates then { s with inFlight := s.inFlight ++ [advice] }
      else { s with advised := s.advised ++ [advice] }
    else s
  else s

/-! ### Writing -/

/-- Without a file, `WriteUnlocked` tries to create one, and writes the header. -/
def ensureFile (s : PagedLogFile) (ctx : Context) : Bool × PagedLogFile :=
  match s.object.ensureFile ctx with
  | (false, o) => (false, { s with object := o })
  | (true, o) =>
    (true, { s with
      object := o
      bytesSinceFlush :=
        if s.object.file.isSome then s.bytesSinceFlush
        else s.bytesSinceFlush + (ctx.header.getD []).length })

/-- The message is written. -/
def writeMessage (s : PagedLogFile) (message : List Byte) : PagedLogFile :=
  { s with
    object := s.object.writeMessage false message
    bytesSinceFlush := s.bytesSinceFlush + message.length }

/-- A file that has reached the maximal size is closed. -/
def rollOver (s : PagedLogFile) (flags : Files.Flags) : PagedLogFile :=
  if Files.reachesMax flags s.object.fileLength then s.closeFile else s

/-- `WriteUnlocked` up to the flush, and whether it gets there. -/
def writeAndFlush (s : PagedLogFile) (call : WriteCall) : Bool × PagedLogFile :=
  if s.object.filenameSource = .selected ∧ s.object.baseFilename = [] then (false, s)
  else
    let s := (s.discardFileIfInherited call.ctx.pid).rollOver call.ctx.flags
    match s.ensureFile call.ctx with
    | (false, s) => (false, s)
    | (true, s) =>
      if call.ctx.stopWriting then (false, s)
      else if call.diskFull then (false, s)
      else
        let s := s.writeMessage call.message
        if call.forceFlush ∨ s.bytesSinceFlush ≥ kFlushBytes ∨ call.timestamp ≥ s.nextFlushTime then
          (true, s.flushUnlocked call.ctx.pid call.timestamp call.logbufsecs)
        else (false, s)

/-- `WriteUnlocked`. -/
def writeUnlocked (s : PagedLogFile) (call : WriteCall) : PagedLogFile :=
  match s.writeAndFlush call with
  | (false, s) => s
  | (true, s) => s.dropPages call

end PagedLogFile

/-! ### Calls -/

/-- What can happen: a call of the class, up to where it releases the lock, or the system call of a
thread that has released it. -/
inductive Call
  | write (call : WriteCall)
  | flush (pid : ℕ) (now logbufsecs : ℤ)
  | setBasename (pid : ℕ) (basename : List Byte)
  | setExtension (pid : ℕ) (ext : List Byte)
  | posixFadvise (i : ℕ)

/-- The state after a call. -/
def step (s : PagedLogFile) : Call → Option PagedLogFile
  | .write call => some (s.writeUnlocked call)
  | .flush pid now logbufsecs => some (s.flushUnlocked pid now logbufsecs)
  | .setBasename pid basename => some (s.setBasename pid basename)
  | .setExtension pid ext => some (s.setExtension pid ext)
  | .posixFadvise i =>
    s.inFlight[i]?.map fun a =>
      { s with inFlight := s.inFlight.eraseIdx i, advised := s.advised ++ [a] }

/-! ### The file itself -/

variable {s : PagedLogFile}

@[simp]
theorem object_closeFile (s : PagedLogFile) : s.closeFile.object = s.object.closeFile := rfl

@[simp]
theorem object_discardFileIfInherited (s : PagedLogFile) (pid : ℕ) :
    (s.discardFileIfInherited pid).object = s.object.discardFileIfInherited pid := by
  rw [PagedLogFile.discardFileIfInherited, LogFileObject.discardFileIfInherited]
  split <;> rfl

theorem object_setBasename (s : PagedLogFile) (pid : ℕ) (basename : List Byte) :
    (s.setBasename pid basename).object = s.object.setBasename pid basename := by
  simp only [PagedLogFile.setBasename, LogFileObject.setBasename]
  split
  · simp
  · rfl

theorem object_setExtension (s : PagedLogFile) (pid : ℕ) (ext : List Byte) :
    (s.setExtension pid ext).object = s.object.setExtension pid ext := by
  simp only [PagedLogFile.setExtension, LogFileObject.setExtension]
  split
  · simp
  · rfl

@[simp]
theorem object_rollOver (s : PagedLogFile) (flags : Files.Flags) :
    (s.rollOver flags).object =
      if Files.reachesMax flags s.object.fileLength then s.object.closeFile else s.object := by
  rw [PagedLogFile.rollOver]
  split <;> rfl

@[simp]
theorem object_dropPages (s : PagedLogFile) (call : WriteCall) :
    (s.dropPages call).object = s.object := by
  simp only [PagedLogFile.dropPages]
  split
  · split
    · split <;> rfl
    · rfl
  · rfl

/-! ### The middle of a write -/

/-- What the attempts to open a file leave alone, and a bound for the account. -/
theorem createInDirectories_spec (flags : Files.Flags) {bound : ℕ} :
    ∀ (directories : List (List Byte × Files.Attempt)) (o : LogFileObject), o.file = none →
      o.fileLength < bound → (∀ d ∈ directories, ∀ size ∈ d.2.existing, size < bound) →
        (LogFileObject.createInDirectories flags directories o).2.filePid = o.filePid ∧
        (LogFileObject.createInDirectories flags directories o).2.closed = o.closed ∧
        (LogFileObject.createInDirectories flags directories o).2.file.isSome =
          (LogFileObject.createInDirectories flags directories o).1 ∧
        (LogFileObject.createInDirectories flags directories o).2.fileLength < bound
  | [], o, hfile, hlength, _ => ⟨rfl, rfl, hfile ▸ rfl, hlength⟩
  | (base, a) :: directories, o, hfile, hlength, hsizes => by
    have hafter : a.lengthAfter flags o.fileLength < bound := by
      rw [Files.Attempt.lengthAfter]
      split
      · exact hlength
      split
      · exact hlength
      split
      · exact Nat.lt_of_le_of_lt (Nat.zero_le _) hlength
      · rename_i size hsize _
        exact hsizes (base, a) (List.mem_cons_self ..) size hsize
    have hcreate := Files.createLogfile_eq (o := { o with baseFilename := base }) flags a hfile
    rw [LogFileObject.createInDirectories, hcreate]
    cases hsucceeds : a.succeeds flags
    · exact createInDirectories_spec flags directories _ rfl hafter
        fun d hd => hsizes d (List.mem_cons_of_mem _ hd)
    · exact ⟨rfl, rfl, rfl, hafter⟩

theorem create_spec {o : LogFileObject} {bound : ℕ} (call : WriteCall) (hfile : o.file = none)
    (hlength : o.fileLength < bound) (hbound : 2 ^ 63 ≤ bound) :
    (o.create call.ctx).2.filePid = o.filePid ∧ (o.create call.ctx).2.closed = o.closed ∧
      (o.create call.ctx).2.file.isSome = (o.create call.ctx).1 ∧
      (o.create call.ctx).2.fileLength < bound := by
  obtain ⟨directories, hattempts, hcreate⟩ := Files.create_eq o call.ctx
  rw [hcreate]
  refine createInDirectories_spec call.ctx.flags directories o hfile hlength fun d hd
    size hsize => ?_
  have hmem : d.2 ∈ Files.attempts o call.ctx := hattempts ▸ List.mem_map_of_mem hd
  rw [Files.attempts] at hmem
  refine Nat.lt_of_lt_of_le ?_ hbound
  cases hsource : o.filenameSource <;> rw [hsource] at hmem
  · obtain ⟨d', hd', hd⟩ := List.mem_map.mp hmem
    exact call.directories_lt d' hd' size (hd ▸ hsize)
  · exact call.selected_lt size (List.mem_singleton.mp hmem ▸ hsize)

/-- Without a file: either none is created, or there is one of this process now. -/
theorem ensureFile_of_none {o : LogFileObject} {bound : ℕ} (call : WriteCall)
    (hfile : o.file = none) (hlength : o.fileLength < bound) (hbound : 2 ^ 63 ≤ bound) :
    (o.ensureFile call.ctx).2.closed = o.closed ∧
      (((o.ensureFile call.ctx).1 = false ∧ (o.ensureFile call.ctx).2.file = none ∧
          (o.ensureFile call.ctx).2.fileLength < bound) ∨
        ((o.ensureFile call.ctx).1 = true ∧ (o.ensureFile call.ctx).2.file.isSome = true ∧
          (o.ensureFile call.ctx).2.filePid = call.ctx.pid ∧
          (o.ensureFile call.ctx).2.fileLength < bound + (call.ctx.header.getD []).length)) := by
  by_cases hattempt : o.rolloverAttempt + 1 = Files.kRolloverAttemptFrequency
  · obtain ⟨hpid, hclosed, hsome, hlt⟩ :=
      create_spec (o := Files.attempting o call.ctx) call hfile hlength hbound
    rw [Files.ensureFile_eq hfile hattempt]
    rcases hcreate : (Files.attempting o call.ctx).create call.ctx with ⟨_ | _, o'⟩ <;>
      rw [hcreate] at hpid hclosed hsome hlt
    · have hnone : o'.file = none :=
        Option.isNone_iff_eq_none.mp (Option.isSome_eq_false_iff.mp hsome)
      exact ⟨hclosed, .inl ⟨rfl, hnone, hlt⟩⟩
    · refine ⟨?_, .inr ⟨rfl, ?_⟩⟩
      · cases call.ctx.header <;> exact hclosed
      · cases call.ctx.header with
        | none => exact ⟨hsome, hpid, hlt⟩
        | some text => exact ⟨Option.isSome_map.trans hsome, hpid, Nat.add_lt_add_right hlt _⟩
  · have hensure : o.ensureFile call.ctx =
        (false, { o with rolloverAttempt := o.rolloverAttempt + 1 }) := by
      rw [LogFileObject.ensureFile, hfile, Option.isSome_none, if_neg Bool.false_ne_true]
      exact if_pos hattempt
    rw [hensure]
    exact ⟨rfl, .inl ⟨rfl, hfile, hlength⟩⟩

theorem ensureFile_of_some {o : LogFileObject} {ctx : Context} (hfile : o.file.isSome = true) :
    o.ensureFile ctx = (true, o) :=
  if_pos hfile

/-- The state after the middle of a write, by the object. -/
theorem ensureFile_eq (s : PagedLogFile) (ctx : Context) : ∃ bytesSinceFlush,
    s.ensureFile ctx = ((s.object.ensureFile ctx).1,
      { s with object := (s.object.ensureFile ctx).2, bytesSinceFlush := bytesSinceFlush }) := by
  rw [PagedLogFile.ensureFile]
  rcases s.object.ensureFile ctx with ⟨_ | _, o⟩ <;> exact ⟨_, rfl⟩

/-- The file of an object after the middle of a write is of this process. -/
theorem filePid_ensureFile {o : LogFileObject} (call : WriteCall)
    (hpid : o.file.isSome = true → o.filePid = call.ctx.pid)
    (hensure : (o.ensureFile call.ctx).1 = true) :
    (o.ensureFile call.ctx).2.filePid = call.ctx.pid := by
  rcases hfile : o.file with _ | f
  · have hbound := Nat.le_max_right (o.fileLength + 1) (2 ^ 63)
    have hlength : o.fileLength < max (o.fileLength + 1) (2 ^ 63) :=
      Nat.lt_of_succ_le (Nat.le_max_left ..)
    obtain ⟨-, ⟨hfalse, -⟩ | ⟨-, -, hpid, -⟩⟩ := ensureFile_of_none call hfile hlength hbound
    · exact absurd (hensure.symm.trans hfalse) Bool.noConfusion
    · exact hpid
  · have hsome : o.file.isSome = true := hfile ▸ rfl
    rw [ensureFile_of_some hsome]
    exact hpid hsome

theorem filePid_discardFileIfInherited {o : LogFileObject} {pid : ℕ}
    (hsome : (o.discardFileIfInherited pid).file.isSome = true) :
    (o.discardFileIfInherited pid).filePid = pid := by
  rw [LogFileObject.discardFileIfInherited] at hsome ⊢
  split at hsome
  · exact absurd hsome Bool.false_ne_true
  · rename_i hinherited
    rw [if_neg hinherited]
    exact not_not.mp fun hpid => hinherited ⟨hsome, hpid⟩

/-- After a file of another process has been discarded and a full one closed. -/
theorem filePid_rollOver (s : PagedLogFile) (pid : ℕ) (flags : Files.Flags)
    (hsome : ((s.discardFileIfInherited pid).rollOver flags).object.file.isSome = true) :
    ((s.discardFileIfInherited pid).rollOver flags).object.filePid = pid := by
  rw [object_rollOver, object_discardFileIfInherited] at hsome ⊢
  split at hsome
  · exact absurd hsome Bool.false_ne_true
  · rename_i hmax
    rw [if_neg hmax]
    exact filePid_discardFileIfInherited hsome

/-- A flush in the process that has opened the file leaves the object alone. -/
theorem object_flushUnlocked (s : PagedLogFile) {pid : ℕ} (now logbufsecs : ℤ)
    (hpid : s.object.filePid = pid) : (s.flushUnlocked pid now logbufsecs).object = s.object := by
  have hdiscard : s.discardFileIfInherited pid = s := if_neg fun h => h.2 hpid
  rw [PagedLogFile.flushUnlocked, hdiscard]
  split <;> rfl

/-- What a write does to the file itself is what the model of log files says. On a full disk, the
message is not counted. -/
theorem object_writeUnlocked (s : PagedLogFile) (call : WriteCall) :
    (s.writeUnlocked call).object = s.object.writeUnlocked
      { call.ctx with stopWriting := call.ctx.stopWriting || call.diskFull } call.message := by
  have hwrite : (s.writeUnlocked call).object = (s.writeAndFlush call).2.object := by
    rw [PagedLogFile.writeUnlocked]
    rcases s.writeAndFlush call with ⟨_ | _, s'⟩
    · rfl
    · exact object_dropPages s' call
  rw [hwrite, PagedLogFile.writeAndFlush, LogFileObject.writeUnlocked]
  split
  · rfl
  have hpid := filePid_rollOver s call.ctx.pid call.ctx.flags
  have hobject : ((s.discardFileIfInherited call.ctx.pid).rollOver call.ctx.flags).object =
      if Files.reachesMax call.ctx.flags
          (s.object.discardFileIfInherited call.ctx.pid).fileLength then
        (s.object.discardFileIfInherited call.ctx.pid).closeFile
      else s.object.discardFileIfInherited call.ctx.pid := by
    rw [object_rollOver, object_discardFileIfInherited]
  simp only [← hobject]
  generalize (s.discardFileIfInherited call.ctx.pid).rollOver call.ctx.flags = s at hpid ⊢
  obtain ⟨bytes, hensure⟩ := ensureFile_eq s call.ctx
  have hpid := filePid_ensureFile call hpid
  have hensure' : s.object.ensureFile
      { call.ctx with stopWriting := call.ctx.stopWriting || call.diskFull } =
        s.object.ensureFile call.ctx := rfl
  rw [hensure', hensure]
  generalize s.object.ensureFile call.ctx = result at hpid ⊢
  obtain ⟨_ | _, o⟩ := result
  · rfl
  simp only [LogFileObject.writeMessage]
  cases call.ctx.stopWriting
  · cases call.diskFull
    · simp only [Bool.or_self, Bool.false_eq_true, if_false]
      split
      · exact object_flushUnlocked _ _ _ (hpid rfl)
      · rfl
    · rfl
  · rfl

end PageCache

end NgLog
