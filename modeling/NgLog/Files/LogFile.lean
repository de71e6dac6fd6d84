import NgLog.Support.Bytes

/-!
# Log files

A `LogFileObject` writes the messages of one severity. It opens a file when a message finds none,
goes on to another file when the current one has reached the maximal size, and drops a file that it
has inherited over a fork. `file_length_` is its own account of the size of the file.

This is the build for POSIX. What the system answers is given with each call: which process this is,
and for each name that is tried, how large a file of that name is if there is one, and which of the
system calls succeed. Each time that a path is opened counts as a file of its own, which holds what
has been written since: without a timestamp in its name the next opening may truncate the file of an
earlier one. A file does not change between `stat` and `open`. Writes are complete. When a file is
flushed, and when its pages are dropped, is left out: it changes neither the file nor the account.

## Main definitions

* `LogFile`, `LogFileObject` — what a file holds, and the class
* `Attempt`, `Context` — the answers of the system
* `maxLogSize`, `createLogfile`, `discardFileIfInherited`, `setBasename`, `setExtension`,
  `writeUnlocked` — the functions
-/

namespace NgLog

namespace Files

/-! ### Data -/

/-- `LogFilenameSource`. -/
inductive LogFilenameSource
  | default
  | selected
deriving DecidableEq

/-- A path that the object has opened: the size of the file then, and what has been written until it
is closed. -/
structure LogFile where
  initial : ℕ
  header : List Byte
  messages : List (List Byte)

/-- The size of the file. -/
def LogFile.size (f : LogFile) : ℕ := f.initial + f.header.length + f.messages.flatten.length

/-- The flags that are read. -/
structure Flags where
  logtostdout : Bool
  logtostderr : Bool
  timestampInLogfileName : Bool
  maxLogSize : ℕ

/-- What happens to the calls of `CreateLogfile` for one name. -/
structure Attempt where
  /-- The size of the file of that name. -/
  existing : Option ℕ
  opens : Bool
  locks : Bool
  truncates : Bool
  fdopens : Bool

/-- What a call finds. -/
structure Context where
  flags : Flags
  pid : ℕ
  /-- The attempt to open a file of the selected name. -/
  selected : Attempt
  /-- The logging directories, as names for the file, with the attempts. -/
  directories : List (List Byte × Attempt)
  /-- The header, if there is to be one. -/
  header : Option (List Byte)
  stopWriting : Bool

/-- `LogFileObject`. -/
structure LogFileObject where
  filenameSource : LogFilenameSource
  baseFilename : List Byte
  filenameExtension : List Byte
  file : Option LogFile
  filePid : ℕ
  fileLength : ℕ
  rolloverAttempt : ℕ
  /-- Ghost: the files that have been closed, in order, as they were then. -/
  closed : List LogFile

def kRolloverAttemptFrequency : ℕ := 32

def kMebibyteShift : ℕ := 20

/-- `MaxLogSize`. -/
def maxLogSize (flags : Flags) : ℕ :=
  let maxMegabytes := 4095
  if flags.maxLogSize = 0 then 1
  else if flags.maxLogSize < maxMegabytes then flags.maxLogSize else maxMegabytes

/-- A size has reached the maximum. -/
def reachesMax (flags : Flags) (size : ℕ) : Bool := size >>> kMebibyteShift ≥ maxLogSize flags

namespace LogFileObject

/-- The constructor; a null pointer is `none`. -/
def init (baseFilename : Option (List Byte)) : LogFileObject :=
  { filenameSource := if baseFilename.isSome then .selected else .default
    baseFilename := baseFilename.getD []
    filenameExtension := []
    file := none
    filePid := 0
    fileLength := 0
    rolloverAttempt := kRolloverAttemptFrequency - 1
    closed := [] }

/-! ### Closing a file -/

/-- The file is closed, and the next message tries to open another one. -/
def closeFile (o : LogFileObject) : LogFileObject :=
  { o with
    file := none
    fileLength := 0
    rolloverAttempt := kRolloverAttemptFrequency - 1
    closed := o.closed ++ o.file.toList }

/-- `DiscardInheritedFile`. -/
def discardInheritedFile (o : LogFileObject) : LogFileObject := o.closeFile

/-- `DiscardFileIfInherited`. -/
def discardFileIfInherited (o : LogFileObject) (pid : ℕ) : LogFileObject :=
  if o.file.isSome ∧ o.filePid ≠ pid then o.discardInheritedFile else o

/-- `SetBasename`. -/
def setBasename (o : LogFileObject) (pid : ℕ) (basename : List Byte) : LogFileObject :=
  let o := { o with filenameSource := .selected }
  if o.baseFilename ≠ basename then
    { (o.discardFileIfInherited pid).closeFile with baseFilename := basename }
  else o

/-- `SetExtension`. -/
def setExtension (o : LogFileObject) (pid : ℕ) (ext : List Byte) : LogFileObject :=
  if o.filenameExtension ≠ ext then
    { (o.discardFileIfInherited pid).closeFile with filenameExtension := ext }
  else o

/-! ### Opening a file -/

/-- `stat` finds a file that has reached the maximal size. -/
def truncateFile (flags : Flags) (a : Attempt) : Bool :=
  !flags.timestampInLogfileName && a.existing.any (reachesMax flags)

/-- `open`, which demands a new file if the name has a timestamp. -/
def opened (flags : Flags) (a : Attempt) : Bool :=
  a.opens && !(flags.timestampInLogfileName && a.existing.isSome)

/-- `CreateLogfile`. -/
def createLogfile (o : LogFileObject) (flags : Flags) (a : Attempt) : Bool × LogFileObject :=
  let o :=
    if flags.timestampInLogfileName then o
    else
      match a.existing with
      | some size => { o with fileLength := size }
      | none => o
  if !opened flags a then (false, o)
  else if !a.locks then (false, o)
  else if truncateFile flags a && !a.truncates then (false, o)
  else
    let o := if truncateFile flags a then { o with fileLength := 0 } else o
    let size := if truncateFile flags a then 0 else a.existing.getD 0
    if !a.fdopens then (false, { o with file := none })
    else (true, { o with file := some ⟨size, [], []⟩ })

/-- The loop over the logging directories. -/
def createInDirectories (flags : Flags) :
    List (List Byte × Attempt) → LogFileObject → Bool × LogFileObject
  | [], o => (false, o)
  | (baseFilename, a) :: directories, o =>
    match ({ o with baseFilename := baseFilename }).createLogfile flags a with
    | (true, o) => (true, o)
    | (false, o) => createInDirectories flags directories o

/-- A file of the selected name, or in one of the directories. -/
def create (o : LogFileObject) (ctx : Context) : Bool × LogFileObject :=
  match o.filenameSource with
  | .selected => o.createLogfile ctx.flags ctx.selected
  | .default => createInDirectories ctx.flags ctx.directories o

/-! ### Writing -/

/-- The header of a new file. -/
def writeHeader (o : LogFileObject) (header : Option (List Byte)) : LogFileObject :=
  match header with
  | none => o
  | some text =>
    { o with
      file := o.file.map fun f => { f with header := f.header ++ text }
      fileLength := o.fileLength + text.length }

/-- The end of `WriteUnlocked`. -/
def writeMessage (o : LogFileObject) (stopWriting : Bool) (message : List Byte) : LogFileObject :=
  if stopWriting then o
  else
    { o with
      file := o.file.map fun f => { f with messages := f.messages ++ [message] }
      fileLength := o.fileLength + message.length }

/-- The middle of `WriteUnlocked`: without a file, one is created at every 32nd message. Nothing if
there is none in the end. -/
def ensureFile (o : LogFileObject) (ctx : Context) : Bool × LogFileObject :=
  if o.file.isSome then (true, o)
  else
    let o := { o with rolloverAttempt := o.rolloverAttempt + 1 }
    if o.rolloverAttempt ≠ kRolloverAttemptFrequency then (false, o)
    else
      let o := { o with rolloverAttempt := 0, filePid := ctx.pid }
      match o.create ctx with
      | (false, o) => (false, o)
      | (true, o) => (true, o.writeHeader ctx.header)

/-- `WriteUnlocked`. -/
def writeUnlocked (o : LogFileObject) (ctx : Context) (message : List Byte) : LogFileObject :=
  if o.filenameSource = .selected ∧ o.baseFilename = [] then o
  else
    let o := o.discardFileIfInherited ctx.pid
    let o := if reachesMax ctx.flags o.fileLength then o.closeFile else o
    match o.ensureFile ctx with
    | (false, o) => o
    | (true, o) => o.writeMessage ctx.stopWriting message

end LogFileObject

end Files

end NgLog
