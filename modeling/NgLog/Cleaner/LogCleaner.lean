import Mathlib.Algebra.Ring.Int.Defs
import Mathlib.Data.List.Dedup
import Mathlib.Logic.Function.Basic
import NgLog.Cleaner.Filenames
import NgLog.Support.Transition

/-!
# The log cleaner

`AddLogFile` records each log file and the pattern of its name under the base name. While the
cleaner is enabled, its thread copies the patterns that are due and then removes the overdue log
files of each of them, without the lock. `Disable` waits for the thread to end and scans once more.

Times of the system clock are compared in nanoseconds of 64 bits, periods in minutes converted to
them.

A step is a critical section of `mutex_`, a reading of the clock, or the visit of one directory of a
scan. What the file system answers during a visit is arbitrary, and other steps may come between
any two visits. The order in which unordered maps and sets are walked through is not specified, and
nothing depends on it. `AddLogFile` asserts that a selected base name is not empty; nothing depends
on that either.

## Main definitions

* `LogFile`, `LogFilePattern` — the arguments of `AddLogFile`, and what it makes of them
* `cleanupDirectories`, `getOverdueLogNames` — where a scan looks, and what it removes
* `State`, `Action`, `step` — the cleaner, and the threads in its functions
-/

namespace NgLog

namespace Cleaner

open Regex

inductive LogFilenameSource
  | kDefault
  | kSelected
  deriving DecidableEq

/-- The arguments of a call of `AddLogFile`, and the directories that `GetLoggingDirectories`
returns to it. -/
structure LogFile where
  filenameSource : LogFilenameSource
  baseFilename : Name
  filename : Name
  filenameExtension : Name
  timestampInLogfileName : Bool
  loggingDirectories : List Name

/-- `LogFilePattern`, with times of the steady clock in nanoseconds. -/
structure LogFilePattern where
  filenameSource : LogFilenameSource
  filenameRegex : List Term
  /-- The map from directories to sets of names, as a set of pairs. -/
  filenamesByDirectory : List (Name × Name)
  loggingDirectories : List Name
  nextCleanupTime : ℤ

/-- A new element of `patterns_`. -/
def LogFilePattern.init : LogFilePattern :=
  { filenameSource := .kDefault
    filenameRegex := []
    filenamesByDirectory := []
    loggingDirectories := []
    nextCleanupTime := 0 }

/-- `patterns_`. -/
abbrev Patterns : Type := List (Name × LogFilePattern)

/-- `patterns_[key]`, which inserts a new element if there is none. -/
def Patterns.at (patterns : Patterns) (key : Name) : LogFilePattern :=
  (patterns.lookup key).getD .init

/-- The patterns after an assignment to `patterns_[key]`. -/
def Patterns.set (patterns : Patterns) (key : Name) (pattern : LogFilePattern) : Patterns :=
  (key, pattern) :: patterns.filter (·.1 ≠ key)

/-- The patterns with other times of their next scans. -/
def Patterns.schedule (patterns : Patterns) (nextCleanupTime : LogFilePattern → ℤ) : Patterns :=
  patterns.map fun entry =>
    (entry.1, { entry.2 with nextCleanupTime := nextCleanupTime entry.2 })

section Platform

variable (platform : Platform)

/-- What `AddLogFile` assigns to the pattern of the base name. -/
def LogFilePattern.addLogFile (pattern : LogFilePattern) (file : LogFile)
    (filenameRegex : List Term) : LogFilePattern :=
  { filenameSource := file.filenameSource
    filenameRegex
    filenamesByDirectory := pattern.filenamesByDirectory.insert
      (sourceDirectory platform file.filename, relativeFilename platform file.filename)
    loggingDirectories :=
      if file.filenameSource = .kDefault then file.loggingDirectories
      else pattern.loggingDirectories
    nextCleanupTime := 0 }

/-- The regular expression that `AddLogFile` makes. -/
def LogFile.matcher (file : LogFile) : Option (List Term) :=
  makeLogFilenameMatcher (constBasename platform file.baseFilename) file.filenameExtension
    file.timestampInLogfileName

/-! ### Scans -/

/-- What the file system answers: the names that a directory lists, and the modification time of a
file in seconds. -/
structure Files where
  entries : Name → List Name
  modified : Name → Option ℤ

/-- The current directory has an empty name in some lists. -/
def orCurrent (directory : Name) : Name := if directory = [] then bytes "." else directory

/-- `dirs` in `CleanOverdueLogs`. -/
def cleanupDirectories (baseFilename : Name) (pattern : LogFilePattern) : List Name :=
  let directories :=
    match pattern.filenameSource with
    | .kDefault => pattern.loggingDirectories.map orCurrent
    | .kSelected =>
      match findLastOf platform.possibleDirDelim baseFilename with
      | some position => [orCurrent (baseFilename.take (position + 1))]
      | none => [bytes "."]
  (directories ++ pattern.filenamesByDirectory.map fun filenames => orCurrent filenames.1).dedup

/-- A number of nanoseconds as it is held, in 64 bits. A result out of range is undefined; here it
wraps around. -/
def nanoseconds (count : ℤ) : ℤ := count.bmod 18446744073709551616

/-- `std::chrono::minutes` in nanoseconds. -/
def minutes (count : ℤ) : ℤ := nanoseconds (count * 60 * 10 ^ 9)

/-- `from_time_t`. -/
def fromTime (seconds : ℤ) : ℤ := nanoseconds (seconds * 10 ^ 9)

/-- `IsLogLastModifiedOverPath`. -/
def isLogLastModifiedOverPath (files : Files) (currentTime overdue : ℤ) (filepath : Name) : Bool :=
  match files.modified filepath with
  | none => false
  | some lastModifiedTime =>
    minutes overdue ≤ nanoseconds (currentTime - fromTime lastModifiedTime)

/-- The paths that a visit asks for their modification times: the registered names of the directory,
and those that it lists and that match. -/
def candidates (files : Files) (logDirectory : Name) (pattern : LogFilePattern) : List Name :=
  let exactFilenames := (pattern.filenamesByDirectory.filter (·.1 = logDirectory)).map (·.2)
  let matchingNames := (files.entries logDirectory).filter (regexMatch pattern.filenameRegex)
  (exactFilenames ++ matchingNames).map (joinPath platform logDirectory)

/-- `GetOverdueLogNames`, with `VisitOverdueLog`. -/
def getOverdueLogNames (files : Files) (logDirectory : Name) (currentTime overdue : ℤ)
    (pattern : LogFilePattern) : List Name :=
  ((candidates platform files logDirectory pattern).filter
    (isLogLastModifiedOverPath files currentTime overdue)).dedup

end Platform

/-! ### The cleaner -/

/-- Who scans: the cleaner thread, or a thread in `Disable`. -/
inductive Scanner
  | worker
  | disable
  deriving DecidableEq

/-- A directory that a scan has not visited yet, with the pattern that it visits it for. -/
structure Visit where
  baseFilename : Name
  pattern : LogFilePattern
  directory : Name

/-- Where a thread is. -/
inductive Activity (Thread : Type)
  | none
  /-- In `Worker`, at the head of the loop. -/
  | looping
  /-- With copied patterns, before the clock is read. -/
  | collected (scanner : Scanner) (overdue : ℤ) (due : Patterns)
  | scanning (scanner : Scanner) (currentTime overdue : ℤ) (visits : List Visit)
  /-- In `Stop`, waiting for the thread, with what follows it. -/
  | joining (cleaner : Option Thread) (clean : Bool)

/-- A file that is to be removed, and what the decision has been made from. -/
structure Unlink where
  path : Name
  files : Files
  currentTime : ℤ
  overdue : ℤ

/-- `LogCleaner`, and where each thread is in its functions; as ghost state, the calls of
`UnlinkPath`. -/
structure State (Thread : Type) where
  enabled : Bool
  overdue : ℤ
  patterns : Patterns
  thread : Option Thread
  activity : Thread → Activity Thread
  unlinked : List Unlink

/-- The initial value of `overdue_`, a week. -/
def kInitialOverdue : ℤ := 7 * 24 * 60

def State.init (Thread : Type) : State Thread :=
  { enabled := false
    overdue := kInitialOverdue
    patterns := []
    thread := none
    activity := fun _ => .none
    unlinked := [] }

/-- The steps. -/
inductive Action (Thread : Type)
  | addLogFile (file : LogFile)
  /-- `Enable`, which starts a thread if the cleaner is not enabled. -/
  | enable (worker : Thread) (overdue : ℤ)
  /-- The critical section of `Stop`, called by `Disable` or by the destructor. -/
  | stop (t : Thread) (disable : Bool)
  /-- The thread has ended; `Disable` copies the patterns. -/
  | join (t : Thread)
  /-- The critical section of `Worker`, at some time and with some value of the flag. -/
  | collect (t : Thread) (now logcleansecs : ℤ)
  | readClock (t : Thread) (currentTime : ℤ)
  | visit (t : Thread) (files : Files)
  /-- The end of a scan. -/
  | finish (t : Thread)

namespace State

variable {Thread : Type} [DecidableEq Thread]

def setActivity (s : State Thread) (t : Thread) (activity : Activity Thread) : State Thread :=
  { s with activity := Function.update s.activity t activity }

/-- `AddLogFile`; `none` if the regular expression cannot be compiled. -/
def addLogFile (platform : Platform) (s : State Thread) (file : LogFile) : Option (State Thread) :=
  (file.matcher platform).map fun filenameRegex =>
    { s with
      patterns := s.patterns.set file.baseFilename
        ((s.patterns.at file.baseFilename).addLogFile platform file filenameRegex) }

/-- `Enable`. -/
def enable (s : State Thread) (worker : Thread) (overdue : ℤ) : Option (State Thread) :=
  if s.enabled then some { s with overdue }
  else
    match s.activity worker with
    | .none => some
        ({ s with
          overdue
          enabled := true
          patterns := s.patterns.schedule fun _ => 0
          thread := some worker }.setActivity worker .looping)
    | _ => none

/-- `Stop`. -/
def stop (s : State Thread) (t : Thread) (disable : Bool) : Option (State Thread) :=
  match s.activity t with
  | .none => some
      ({ s with enabled := false, thread := none }.setActivity t
        (.joining s.thread (disable && s.enabled)))
  | _ => none

/-- The thread has ended. -/
def hasEnded (s : State Thread) (t : Thread) : Bool :=
  match s.activity t with
  | .none => true
  | _ => false

/-- The end of `Stop`. -/
def join (s : State Thread) (t : Thread) : Option (State Thread) :=
  match s.activity t with
  | .joining cleaner clean =>
    if cleaner.all s.hasEnded then
      some (s.setActivity t (if clean then .collected .disable s.overdue s.patterns else .none))
    else none
  | _ => none

/-- The critical section of `Worker`. Nothing happens if the thread waits. -/
def collect (s : State Thread) (t : Thread) (now logcleansecs : ℤ) : Option (State Thread) :=
  match s.activity t with
  | .looping =>
    if s.enabled then
      let due := s.patterns.filter fun pattern => pattern.2.nextCleanupTime ≤ now
      let patterns := s.patterns.schedule fun pattern =>
        if pattern.nextCleanupTime ≤ now then now + logcleansecs * 10 ^ 9
        else pattern.nextCleanupTime
      if due = [] then some s
      else some ({ s with patterns }.setActivity t (.collected .worker s.overdue due))
    else some (s.setActivity t .none)
  | _ => none

/-- The scan of the patterns begins: `CleanOverdueLogs` for each of them. -/
def readClock (platform : Platform) (s : State Thread) (t : Thread) (currentTime : ℤ) :
    Option (State Thread) :=
  match s.activity t with
  | .collected scanner overdue due => some (s.setActivity t (.scanning scanner currentTime overdue
      (due.flatMap fun pattern =>
        (cleanupDirectories platform pattern.1 pattern.2).map fun directory =>
        ⟨pattern.1, pattern.2, directory⟩)))
  | _ => none

/-- The loop of `CleanOverdueLogs`, for one directory. -/
def visit (platform : Platform) (s : State Thread) (t : Thread) (files : Files) :
    Option (State Thread) :=
  match s.activity t with
  | .scanning scanner currentTime overdue (next :: visits) => some
      ({ s with
        unlinked := s.unlinked ++
          (getOverdueLogNames platform files next.directory currentTime overdue next.pattern).map
            fun log => (⟨log, files, currentTime, overdue⟩ : Unlink) }.setActivity t
        (.scanning scanner currentTime overdue visits))
  | _ => none

def finish (s : State Thread) (t : Thread) : Option (State Thread) :=
  match s.activity t with
  | .scanning .worker _ _ [] => some (s.setActivity t .looping)
  | .scanning .disable _ _ [] => some (s.setActivity t .none)
  | _ => none

end State

/-- The state after a step. -/
def step {Thread : Type} [DecidableEq Thread] (platform : Platform) (s : State Thread) :
    Action Thread → Option (State Thread)
  | .addLogFile file => s.addLogFile platform file
  | .enable worker overdue => s.enable worker overdue
  | .stop t disable => s.stop t disable
  | .join t => s.join t
  | .collect t now logcleansecs => s.collect t now logcleansecs
  | .readClock t currentTime => s.readClock platform t currentTime
  | .visit t files => s.visit platform t files
  | .finish t => s.finish t

end Cleaner

end NgLog
