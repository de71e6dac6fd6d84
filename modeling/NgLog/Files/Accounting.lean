import Mathlib.Data.List.Induction
import NgLog.Files.LogFile
import NgLog.Support.Transition

/-!
# The account of the size of a log file

`file_length_` should be the size of the file while one is open, and zero while none is. Without a
timestamp in the name, `CreateLogfile` sets it to the size of the file that `stat` finds, before it
knows whether it can open the file. If that fails, the size stays, and nothing corrects it but a
later attempt that finds a file. This file shows that this is all that can go wrong.

## Main definitions

* `Accounted` — the account is right
* `LeavesLength` — the attempts of a write after which it is not
* `Call`, `step` — a call of the class

## Main results

* `accounted_createInDirectories` — the account after the attempts
* `accounted_step_iff` — the account after a call
* `accounted_iff` — exactly the runs in which it is always right
-/

namespace NgLog

namespace Files

open Transition (run Along)

variable {o : LogFileObject} {flags : Flags} {ctx : Context}

/-! ### Calls -/

/-- The calls of the class. -/
inductive Call
  | write (ctx : Context) (message : List Byte)
  | setBasename (pid : ℕ) (basename : List Byte)
  | setExtension (pid : ℕ) (ext : List Byte)
  | discardFileIfInherited (pid : ℕ)

/-- The object after a call. -/
def apply (o : LogFileObject) : Call → LogFileObject
  | .write ctx message => o.writeUnlocked ctx message
  | .setBasename pid basename => o.setBasename pid basename
  | .setExtension pid ext => o.setExtension pid ext
  | .discardFileIfInherited pid => o.discardFileIfInherited pid

/-- Every call can be made. -/
def step (o : LogFileObject) (c : Call) : Option LogFileObject := some (apply o c)

/-! ### What should hold -/

/-- `file_length_` is the size of the file, or zero if there is none. -/
def Accounted (o : LogFileObject) : Prop :=
  match o.file with
  | some f => o.fileLength = f.size
  | none => o.fileLength = 0

theorem accounted_of_none (h : o.file = none) : Accounted o ↔ o.fileLength = 0 := by
  rw [Accounted, h]

theorem accounted_of_some {f : LogFile} (h : o.file = some f) :
    Accounted o ↔ o.fileLength = f.size := by
  rw [Accounted, h]

theorem accounted_init (baseFilename : Option (List Byte)) :
    Accounted (LogFileObject.init baseFilename) := rfl

theorem accounted_closeFile (o : LogFileObject) : Accounted o.closeFile := rfl

theorem accounted_discardFileIfInherited (pid : ℕ) (h : Accounted o) :
    Accounted (o.discardFileIfInherited pid) := by
  rw [LogFileObject.discardFileIfInherited]
  split
  · exact accounted_closeFile o
  · exact h

/-- The account is right before and after the call. -/
def AccountedStep (o : LogFileObject) (c : Call) : Prop := Accounted o ∧ Accounted (apply o c)

/-! ### When it does not -/

/-- `CreateLogfile` succeeds. -/
def Attempt.succeeds (flags : Flags) (a : Attempt) : Bool :=
  LogFileObject.opened flags a && a.locks &&
    (!LogFileObject.truncateFile flags a || a.truncates) && a.fdopens

/-- `CreateLogfile` truncates the file. -/
def Attempt.shortens (flags : Flags) (a : Attempt) : Bool :=
  LogFileObject.opened flags a && a.locks && LogFileObject.truncateFile flags a && a.truncates

/-- The attempts before the first one that succeeds. -/
def failures (flags : Flags) (attempts : List Attempt) : List Attempt :=
  attempts.takeWhile fun a => !a.succeeds flags

/-- Of the attempts that fail, the last one that finds a file finds it nonempty and does not
truncate it; and there is no attempt that succeeds, or it finds no file. -/
def LeavesLength (flags : Flags) (attempts : List Attempt) : Prop :=
  flags.timestampInLogfileName = false ∧
    (∃ a ∈ ((failures flags attempts).filter fun a => a.existing.isSome).getLast?,
      a.existing ≠ some 0 ∧ a.shortens flags = false) ∧
    ∀ a ∈ attempts.find? (Attempt.succeeds flags), a.existing = none

/-- The attempts of a write, if it makes any. -/
def attempts (o : LogFileObject) (ctx : Context) : List Attempt :=
  match o.filenameSource with
  | .selected => [ctx.selected]
  | .default => ctx.directories.map Prod.snd

/-- A write in this state tries to open a file. -/
def Creates (o : LogFileObject) (ctx : Context) : Prop :=
  ¬(o.filenameSource = .selected ∧ o.baseFilename = []) ∧
    match o.file with
    | none => o.rolloverAttempt + 1 = kRolloverAttemptFrequency
    | some f => o.filePid ≠ ctx.pid ∨ reachesMax ctx.flags f.size = true

/-- The calls after which the account is wrong. -/
def Miscounts (o : LogFileObject) : Call → Prop
  | .write ctx _ => Creates o ctx ∧ LeavesLength ctx.flags (attempts o ctx)
  | _ => False

/-! ### The account after the attempts -/

/-- The account after an attempt. -/
def Attempt.lengthAfter (flags : Flags) (a : Attempt) (length : ℕ) : ℕ :=
  if flags.timestampInLogfileName then length
  else
    match a.existing with
    | none => length
    | some size => if a.shortens flags then 0 else size

/-- The size of a file when it has been opened. -/
def Attempt.sizeOpened (flags : Flags) (a : Attempt) : ℕ :=
  if LogFileObject.truncateFile flags a then 0 else a.existing.getD 0

theorem truncateFile_of_none {a : Attempt} (h : a.existing = none) :
    LogFileObject.truncateFile flags a = false := by
  rw [LogFileObject.truncateFile, h, Option.any_none, Bool.and_false]

theorem truncateFile_of_timestamp (a : Attempt) (h : flags.timestampInLogfileName = true) :
    LogFileObject.truncateFile flags a = false := by
  rw [LogFileObject.truncateFile, h, Bool.not_true, Bool.false_and]

theorem createLogfile_eq (flags : Flags) (a : Attempt) (h : o.file = none) :
    o.createLogfile flags a = (a.succeeds flags,
      { o with
        fileLength := a.lengthAfter flags o.fileLength
        file := if a.succeeds flags then some ⟨a.sizeOpened flags, [], []⟩ else none }) := by
  obtain ⟨source, base, extension, file, pid, length, attempt, closed⟩ := o
  obtain rfl : file = none := h
  rw [LogFileObject.createLogfile, Attempt.succeeds, Attempt.lengthAfter, Attempt.shortens,
    Attempt.sizeOpened]
  cases htimestamp : flags.timestampInLogfileName
  · rcases hexisting : a.existing with _ | size
    · rw [truncateFile_of_none hexisting]
      cases LogFileObject.opened flags a <;> cases a.locks <;> cases a.fdopens <;> rfl
    · cases LogFileObject.opened flags a <;> cases a.locks <;>
        cases LogFileObject.truncateFile flags a <;> cases a.truncates <;> cases a.fdopens <;> rfl
  · rw [truncateFile_of_timestamp a htimestamp]
    cases LogFileObject.opened flags a <;> cases a.locks <;> cases a.fdopens <;> rfl
/-- If an attempt succeeds, the account is wrong exactly if there is no file that corrects it. -/
theorem lengthAfter_eq_sizeOpened_iff {a : Attempt} (h : a.succeeds flags = true) (length : ℕ) :
    a.lengthAfter flags length = a.sizeOpened flags ↔ a.existing = none → length = 0 := by
  simp only [Attempt.succeeds, Bool.and_eq_true, Bool.or_eq_true, Bool.not_eq_true'] at h
  obtain ⟨⟨⟨hopened, hlocks⟩, htruncates⟩, -⟩ := h
  rw [Attempt.lengthAfter, Attempt.sizeOpened, Attempt.shortens, hopened, hlocks]
  rcases hexisting : a.existing with _ | size
  · simp [truncateFile_of_none hexisting]
  cases htimestamp : flags.timestampInLogfileName
  · rcases htruncates with htruncates | htruncates <;> simp [htruncates]
  · -- A name with a timestamp is only opened if there is no such file.
    simp [LogFileObject.opened, htimestamp, hexisting] at hopened

/-- The account is wrong after these attempts, if it is `length` before them. -/
def Carries (flags : Flags) : List Attempt → ℕ → Prop
  | [], length => length ≠ 0
  | a :: attempts, length =>
    if a.succeeds flags then a.existing = none ∧ length ≠ 0
    else Carries flags attempts (a.lengthAfter flags length)

/-- The account after the loop over the directories, and whether there is a file. -/
theorem accounted_createInDirectories (flags : Flags) :
    ∀ (directories : List (List Byte × Attempt)) (o : LogFileObject), o.file = none →
      (Accounted (LogFileObject.createInDirectories flags directories o).2 ↔
        ¬Carries flags (directories.map Prod.snd) o.fileLength) ∧
      (LogFileObject.createInDirectories flags directories o).2.file.isSome =
        (LogFileObject.createInDirectories flags directories o).1
  | [], o, h => by
    refine ⟨?_, by rw [LogFileObject.createInDirectories, h]; rfl⟩
    rw [LogFileObject.createInDirectories, accounted_of_none h, List.map_nil, Carries, not_not]
  | (baseFilename, a) :: directories, o, h => by
    have hcreate := createLogfile_eq (o := { o with baseFilename := baseFilename }) flags a h
    rw [LogFileObject.createInDirectories, List.map_cons, Carries]
    cases hsucceeds : a.succeeds flags
    · rw [hsucceeds] at hcreate
      simp only [hcreate]
      exact accounted_createInDirectories flags directories _ rfl
    · rw [hsucceeds] at hcreate
      simp only [hcreate, if_true]
      refine ⟨?_, rfl⟩
      rw [accounted_of_some rfl, LogFile.size]
      simp only [List.length_nil, List.flatten_nil, Nat.add_zero]
      rw [lengthAfter_eq_sizeOpened_iff hsucceeds, not_and, not_not]

/-! ### Which attempts leave a length -/

/-- The account after attempts that fail. -/
def lengthAfterFailures (flags : Flags) (attempts : List Attempt) (length : ℕ) : ℕ :=
  attempts.foldl (fun length a => a.lengthAfter flags length) length

theorem carries_iff (flags : Flags) : ∀ (attempts : List Attempt) (length : ℕ),
    Carries flags attempts length ↔
      lengthAfterFailures flags (failures flags attempts) length ≠ 0 ∧
        ∀ a ∈ attempts.find? (Attempt.succeeds flags), a.existing = none
  | [], length => by simp [Carries, failures, lengthAfterFailures]
  | a :: attempts, length => by
    rw [Carries, failures, List.takeWhile_cons, List.find?_cons]
    cases hsucceeds : a.succeeds flags
    · simp only [Bool.false_eq_true, if_false, Bool.not_false, if_true]
      exact carries_iff flags attempts _
    · simp [lengthAfterFailures, and_comm]

/-- With timestamps, no attempt changes the account. -/
theorem lengthAfterFailures_of_timestamp (h : flags.timestampInLogfileName = true) :
    ∀ (attempts : List Attempt) (length : ℕ), lengthAfterFailures flags attempts length = length
  | [], _ => rfl
  | a :: attempts, length => by
    have ha : a.lengthAfter flags length = length := by rw [Attempt.lengthAfter, if_pos h]
    rw [lengthAfterFailures, List.foldl_cons, ha]
    exact lengthAfterFailures_of_timestamp h attempts length

/-- Without timestamps, the last attempt that finds a file decides. The induction is from the
end. -/
theorem lengthAfterFailures_ne_zero_iff (h : flags.timestampInLogfileName = false)
    (attempts : List Attempt) :
    lengthAfterFailures flags attempts 0 ≠ 0 ↔
      ∃ a ∈ (attempts.filter fun a => a.existing.isSome).getLast?,
        a.existing ≠ some 0 ∧ a.shortens flags = false := by
  induction attempts using List.reverseRecOn with
  | nil => simp [lengthAfterFailures]
  | append_singleton attempts a ih =>
    have hlast : lengthAfterFailures flags (attempts ++ [a]) 0 =
        a.lengthAfter flags (lengthAfterFailures flags attempts 0) := by
      rw [lengthAfterFailures, List.foldl_append]
      rfl
    rw [hlast, Attempt.lengthAfter, h, List.filter_append]
    rcases hexisting : a.existing with _ | size
    · simpa [hexisting] using ih
    · cases hshortens : a.shortens flags <;> simp [hexisting, hshortens]

theorem carries_zero_iff (attempts : List Attempt) :
    Carries flags attempts 0 ↔ LeavesLength flags attempts := by
  rw [carries_iff, LeavesLength]
  cases htimestamp : flags.timestampInLogfileName
  · rw [lengthAfterFailures_ne_zero_iff htimestamp]
    simp only [true_and]
  · rw [lengthAfterFailures_of_timestamp htimestamp]
    simp

/-! ### The account after a call -/

/-- The loop over the directories, for a selected name too. -/
theorem create_eq (o : LogFileObject) (ctx : Context) : ∃ directories,
    directories.map Prod.snd = attempts o ctx ∧
      o.create ctx = LogFileObject.createInDirectories ctx.flags directories o := by
  rw [LogFileObject.create, attempts]
  cases o.filenameSource with
  | selected =>
    refine ⟨[(o.baseFilename, ctx.selected)], rfl, ?_⟩
    simp only [LogFileObject.createInDirectories]
    rcases o.createLogfile ctx.flags ctx.selected with ⟨_ | _, o'⟩ <;> rfl
  | default => exact ⟨ctx.directories, rfl, rfl⟩

theorem accounted_writeHeader (header : Option (List Byte)) (h : o.file.isSome = true) :
    (Accounted (o.writeHeader header) ↔ Accounted o) ∧
      (o.writeHeader header).file.isSome = true := by
  cases header with
  | none => exact ⟨Iff.rfl, h⟩
  | some text =>
    obtain ⟨f, hf⟩ := Option.isSome_iff_exists.mp h
    have hfile : (o.writeHeader (some text)).file = some { f with header := f.header ++ text } := by
      rw [LogFileObject.writeHeader, hf]
      rfl
    refine ⟨?_, hfile ▸ rfl⟩
    rw [accounted_of_some hfile, accounted_of_some hf, LogFileObject.writeHeader]
    simp only [LogFile.size, List.length_append]
    omega

theorem accounted_writeMessage (stopWriting : Bool) (message : List Byte)
    (h : o.file.isSome = true) :
    Accounted (o.writeMessage stopWriting message) ↔ Accounted o := by
  rw [LogFileObject.writeMessage]
  split
  · rfl
  obtain ⟨f, hf⟩ := Option.isSome_iff_exists.mp h
  rw [accounted_of_some (by simp only [hf]; rfl), accounted_of_some hf]
  simp only [LogFile.size, List.flatten_append, List.length_append, List.flatten_cons,
    List.flatten_nil, List.append_nil]
  omega

/-- The object when a write tries to open a file. -/
def attempting (o : LogFileObject) (ctx : Context) : LogFileObject :=
  { o with rolloverAttempt := 0, filePid := ctx.pid }

theorem ensureFile_eq (hfile : o.file = none)
    (hattempt : o.rolloverAttempt + 1 = kRolloverAttemptFrequency) :
    o.ensureFile ctx = match (attempting o ctx).create ctx with
      | (false, o) => (false, o)
      | (true, o) => (true, o.writeHeader ctx.header) := by
  rw [LogFileObject.ensureFile, if_neg (by rw [hfile]; exact nofun)]
  exact if_neg (not_not.mpr hattempt)

/-- The end of a write that tries to open a file. -/
theorem accounted_ensureFile (message : List Byte) (hfile : o.file = none)
    (hattempt : o.rolloverAttempt + 1 = kRolloverAttemptFrequency) (hlength : o.fileLength = 0) :
    Accounted (match o.ensureFile ctx with
      | (false, o) => o
      | (true, o) => o.writeMessage ctx.stopWriting message) ↔
        ¬LeavesLength ctx.flags (attempts o ctx) := by
  obtain ⟨directories, hattempts, hcreate⟩ := create_eq (attempting o ctx) ctx
  obtain ⟨haccount, hsome⟩ :=
    accounted_createInDirectories ctx.flags directories (attempting o ctx) hfile
  have hcarries : Carries ctx.flags (directories.map Prod.snd) (attempting o ctx).fileLength ↔
      LeavesLength ctx.flags (attempts o ctx) := by
    rw [hattempts, show (attempting o ctx).fileLength = 0 from hlength]
    exact carries_zero_iff _
  rw [← hcreate] at haccount hsome
  rw [ensureFile_eq hfile hattempt]
  rcases hresult : (attempting o ctx).create ctx with ⟨_ | _, o'⟩ <;>
    rw [hresult] at haccount hsome
  · exact haccount.trans (not_congr hcarries)
  · obtain ⟨hheader, hsome⟩ := accounted_writeHeader ctx.header hsome
    exact ((accounted_writeMessage ctx.stopWriting message hsome).trans hheader).trans
      (haccount.trans (not_congr hcarries))

theorem reachesMax_zero (flags : Flags) : reachesMax flags 0 = false := by
  have hpos : 0 < maxLogSize flags := by
    rw [maxLogSize]
    split
    · exact Nat.zero_lt_one
    · split <;> omega
  rw [reachesMax, Nat.zero_shiftRight, decide_eq_false_iff_not]
  omega

/-- A write that closes its file, if it has one, and tries to open another. -/
theorem accounted_closeFile_ensureFile (o : LogFileObject) (ctx : Context) (message : List Byte) :
    Accounted (match o.closeFile.ensureFile ctx with
      | (false, o) => o
      | (true, o) => o.writeMessage ctx.stopWriting message) ↔
        ¬LeavesLength ctx.flags (attempts o ctx) :=
  accounted_ensureFile (o := o.closeFile) message rfl rfl rfl

/-- A write keeps the account unless its attempts leave a length. The cases are those of the file
that it finds: none, an inherited one, one that has reached the maximal size, or one to append
to. -/
theorem accounted_writeUnlocked_iff (h : Accounted o) (message : List Byte) :
    Accounted (o.writeUnlocked ctx message) ↔
      ¬(Creates o ctx ∧ LeavesLength ctx.flags (attempts o ctx)) := by
  rw [LogFileObject.writeUnlocked, Creates]
  split
  · rename_i hdisabled
    simp only [hdisabled, and_self, not_true_eq_false, false_and, not_false_eq_true, iff_true]
    exact h
  rename_i hdisabled
  simp only [hdisabled, not_false_eq_true, true_and]
  rcases hfile : o.file with _ | f
  · rw [accounted_of_none hfile] at h
    have hdiscard : o.discardFileIfInherited ctx.pid = o := by
      rw [LogFileObject.discardFileIfInherited, hfile, if_neg (fun h => nomatch h.1)]
    simp only [hdiscard, h, reachesMax_zero, Bool.false_eq_true, if_false]
    by_cases hattempt : o.rolloverAttempt + 1 = kRolloverAttemptFrequency
    · simp only [hattempt, true_and]
      exact accounted_ensureFile message hfile hattempt h
    · have hensure : o.ensureFile ctx =
          (false, { o with rolloverAttempt := o.rolloverAttempt + 1 }) := by
        rw [LogFileObject.ensureFile, hfile, if_neg (by exact nofun)]
        exact if_pos hattempt
      simp only [hensure, hattempt, false_and, not_false_eq_true, iff_true]
      exact (accounted_of_none hfile).mpr h
  · rw [accounted_of_some hfile] at h
    by_cases hpid : o.filePid = ctx.pid
    swap
    · have hdiscard : o.discardFileIfInherited ctx.pid = o.closeFile := by
        rw [LogFileObject.discardFileIfInherited, hfile, if_pos ⟨rfl, hpid⟩]
        rfl
      have hlength : o.closeFile.fileLength = 0 := rfl
      simp only [hdiscard, hlength, reachesMax_zero, Bool.false_eq_true, if_false, ne_eq, hpid,
        not_false_eq_true, true_or, true_and]
      exact accounted_closeFile_ensureFile o ctx message
    have hdiscard : o.discardFileIfInherited ctx.pid = o := by
      rw [LogFileObject.discardFileIfInherited, if_neg fun h => h.2 hpid]
    simp only [hdiscard, h, ne_eq, hpid, not_true_eq_false, false_or]
    cases hmax : reachesMax ctx.flags f.size
    · have hensure : o.ensureFile ctx = (true, o) := by
        rw [LogFileObject.ensureFile]
        exact if_pos (by rw [hfile]; rfl)
      simp only [Bool.false_eq_true, if_false, hensure, false_and, not_false_eq_true, iff_true]
      exact (accounted_writeMessage ctx.stopWriting message (hfile ▸ rfl)).mpr
        ((accounted_of_some hfile).mpr h)
    · simp only [if_true, true_and]
      exact accounted_closeFile_ensureFile o ctx message

/-- A call keeps the account if and only if it does not miscount. -/
theorem accounted_step_iff (h : Accounted o) (c : Call) :
    Accounted (apply o c) ↔ ¬Miscounts o c := by
  cases c with
  | write ctx message => exact accounted_writeUnlocked_iff h message
  | setBasename pid basename =>
    refine iff_of_true ?_ id
    rw [apply, LogFileObject.setBasename]
    split
    · exact (rfl : (0 : ℕ) = 0)
    · exact h
  | setExtension pid ext =>
    refine iff_of_true ?_ id
    rw [apply, LogFileObject.setExtension]
    split
    · exact (rfl : (0 : ℕ) = 0)
    · exact h
  | discardFileIfInherited pid => exact iff_of_true (accounted_discardFileIfInherited pid h) id

/-- In every history of a new object, the account is right before and after each call if and only if
no write is of the kind that miscounts. -/
theorem accounted_iff (baseFilename : Option (List Byte)) (calls : List Call) :
    Along step AccountedStep (LogFileObject.init baseFilename) calls ↔
      Along step (fun o c => ¬Miscounts o c) (LogFileObject.init baseFilename) calls :=
  Transition.along_congr (I := Accounted)
    (fun _ c h => ⟨fun hstep => (accounted_step_iff h c).mp hstep.2,
      fun hgood => ⟨h, (accounted_step_iff h c).mpr hgood⟩⟩)
    (fun _ _ _ hstep _ heq => Option.some.inj heq ▸ hstep.2) (accounted_init baseFilename)

/-- Another process holds the lock of the file, which has 100 bytes. -/
def lockedContext : Context where
  flags := ⟨false, false, false, 0⟩
  pid := 1
  selected := ⟨some 100, true, false, true, true⟩
  directories := []
  header := none
  stopWriting := false

/-- A first message for a file that is locked: no file is open, and the account is 100. -/
theorem account_of_locked_file : ¬∀ (baseFilename : Option (List Byte)) (calls : List Call),
    Along step AccountedStep (LogFileObject.init baseFilename) calls := by
  intro hall
  have hstep := hall (some [108, 111, 103]) [.write lockedContext [104, 105]] []
    (.write lockedContext [104, 105]) [] rfl _ rfl
  have hlength : 100 = 0 := hstep.2
  cases hlength

end Files

end NgLog
