import NgLog.Files.Accounting

/-!
# Waiting after a file could not be created

A message that finds no file tries to create one only if it is the 32nd since the last attempt:
`rollover_attempt_` counts them. A file that has reached the maximal size is closed by the same
`WriteUnlocked`, which then sets the counter so that the message tries at once. Whether the size has
been reached is asked of `file_length_`, which an attempt that fails may have set to the size of a
file that it could not open. This file shows that the writes after a failure wait as they should,
unless that size has reached the maximum.

## Main definitions

* `TriesToCreate`, `CreationFails` — a write tries to create a file, and does not succeed
* `BacksOff` — how many writes let the next attempt wait
* `lengthLeft` — the size that the failure leaves behind

## Main results

* `writeUnlocked_congr` — a write that does not try asks nothing of the directories
* `waiting_of_creationFails` — the state after a failure
* `backsOff_waiting_iff` — the writes that wait in such a state
* `backsOff_iff` — the writes after a failure, in every history
-/

namespace NgLog

namespace Files

open Transition (run)

variable {o : LogFileObject} {flags : Flags} {ctx : Context} {length n : ℕ}

/-! ### Attempts of a write -/

/-- The object when `WriteUnlocked` looks for its file. -/
def afterRollover (o : LogFileObject) (ctx : Context) : LogFileObject :=
  let o := o.discardFileIfInherited ctx.pid
  if reachesMax ctx.flags o.fileLength then o.closeFile else o

/-- There is a name to write to. -/
def Named (o : LogFileObject) : Prop := ¬(o.filenameSource = .selected ∧ o.baseFilename = [])

/-- A write comes to the attempt to create a file. -/
def TriesToCreate (o : LogFileObject) (ctx : Context) : Prop :=
  Named o ∧ (afterRollover o ctx).file = none ∧
    (afterRollover o ctx).rolloverAttempt + 1 = kRolloverAttemptFrequency

/-- A write tries to create a file, and there is none that it can open. -/
def CreationFails (o : LogFileObject) (ctx : Context) : Prop :=
  TriesToCreate o ctx ∧ ((attempting (afterRollover o ctx) ctx).create ctx).1 = false

/-- Of the writes among the calls, the next `n` do not try to create a file, and the one after them
does. -/
def BacksOff : ℕ → LogFileObject → List Call → Prop
  | _, _, [] => True
  | 0, o, .write ctx _ :: _ => TriesToCreate o ctx
  | n + 1, o, .write ctx message :: later =>
    ¬TriesToCreate o ctx ∧ BacksOff n (o.writeUnlocked ctx message) later
  | n, o, call :: later => BacksOff n (apply o call) later

/-- The name of the file is left alone. -/
def Call.KeepsName : Call → Prop
  | .write .. => True
  | .discardFileIfInherited _ => True
  | .setBasename .. => False
  | .setExtension .. => False

/-- What the writes among the calls find. -/
def writes (calls : List Call) : List Context :=
  calls.filterMap fun
    | .write ctx _ => some ctx
    | _ => none

/-- The account after a write that cannot create a file: the size of the last file that it found, if
it has not truncated it. -/
def lengthLeft (o : LogFileObject) (ctx : Context) : ℕ :=
  lengthAfterFailures ctx.flags (attempts o ctx) (afterRollover o ctx).fileLength

theorem writeUnlocked_of_named (h : Named o) (message : List Byte) :
    o.writeUnlocked ctx message = match (afterRollover o ctx).ensureFile ctx with
      | (false, o) => o
      | (true, o) => o.writeMessage ctx.stopWriting message :=
  if_neg h

/-- A write that does not try to create a file asks nothing of the directories. -/
theorem writeUnlocked_congr (h : ¬TriesToCreate o ctx) (message : List Byte) (selected : Attempt)
    (directories : List (List Byte × Attempt)) :
    o.writeUnlocked { ctx with selected := selected, directories := directories } message =
      o.writeUnlocked ctx message := by
  by_cases hnamed : Named o
  swap
  · have hdisabled := not_not.mp hnamed
    rw [LogFileObject.writeUnlocked, LogFileObject.writeUnlocked, if_pos hdisabled,
      if_pos hdisabled]
  have hensure : (afterRollover o ctx).ensureFile
      { ctx with selected := selected, directories := directories } =
        (afterRollover o ctx).ensureFile ctx := by
    rw [LogFileObject.ensureFile, LogFileObject.ensureFile]
    rcases hfile : (afterRollover o ctx).file with _ | f
    · have hattempt : (afterRollover o ctx).rolloverAttempt + 1 ≠ kRolloverAttemptFrequency :=
        fun hattempt => h ⟨hnamed, hfile, hattempt⟩
      simp only [hattempt, ne_eq, not_false_eq_true, if_true]
    · rfl
  rw [writeUnlocked_of_named hnamed, writeUnlocked_of_named hnamed]
  exact congrArg (fun result : Bool × LogFileObject => match result with
    | (false, o) => o
    | (true, o) => o.writeMessage ctx.stopWriting message) hensure

/-! ### Waiting -/

/-- The object waits for `n` more writes to pass, with this account. -/
structure Waiting (length n : ℕ) (o : LogFileObject) : Prop where
  named : Named o
  file : o.file = none
  fileLength : o.fileLength = length
  rolloverAttempt : o.rolloverAttempt + n + 1 = kRolloverAttemptFrequency

namespace Waiting

variable (h : Waiting length n o)

include h

theorem discardFileIfInherited (pid : ℕ) : o.discardFileIfInherited pid = o := by
  rw [LogFileObject.discardFileIfInherited, h.file]
  exact if_neg fun hinherited => Bool.false_ne_true hinherited.1

theorem afterRollover_eq : afterRollover o ctx = if reachesMax ctx.flags length then o.closeFile
    else o := by
  rw [afterRollover, h.discardFileIfInherited, h.fileLength]

/-- A length that has reached the maximum is taken for a file to close, and the write tries. -/
theorem triesToCreate_of_reachesMax (hmax : reachesMax ctx.flags length = true) :
    TriesToCreate o ctx := by
  rw [TriesToCreate, h.afterRollover_eq, if_pos hmax]
  exact ⟨h.named, rfl, rfl⟩

theorem triesToCreate_iff (hmax : reachesMax ctx.flags length = false) :
    TriesToCreate o ctx ↔ n = 0 := by
  have hattempt := h.rolloverAttempt
  rw [TriesToCreate, h.afterRollover_eq, hmax, if_neg Bool.false_ne_true]
  constructor
  · rintro ⟨-, -, htries⟩
    omega
  · rintro rfl
    exact ⟨h.named, h.file, hattempt⟩

end Waiting

/-- A write that waits is counted. -/
theorem Waiting.writeUnlocked (h : Waiting length (n + 1) o)
    (hmax : reachesMax ctx.flags length = false) (message : List Byte) :
    Waiting length n (o.writeUnlocked ctx message) := by
  have hattempt := h.rolloverAttempt
  have hensure : o.ensureFile ctx =
      (false, { o with rolloverAttempt := o.rolloverAttempt + 1 }) := by
    rw [LogFileObject.ensureFile, h.file, if_neg (by exact Bool.false_ne_true)]
    exact if_pos (show o.rolloverAttempt + 1 ≠ kRolloverAttemptFrequency by omega)
  rw [writeUnlocked_of_named h.named, h.afterRollover_eq, hmax, if_neg Bool.false_ne_true, hensure]
  exact ⟨h.named, h.file, h.fileLength, show o.rolloverAttempt + 1 + n + 1 = _ by omega⟩

/-! ### The state after a failure -/

theorem afterRollover_filenameSource (o : LogFileObject) (ctx : Context) :
    (afterRollover o ctx).filenameSource = o.filenameSource := by
  rw [afterRollover, LogFileObject.discardFileIfInherited]
  split <;> split <;> rfl

theorem afterRollover_baseFilename (o : LogFileObject) (ctx : Context) :
    (afterRollover o ctx).baseFilename = o.baseFilename := by
  rw [afterRollover, LogFileObject.discardFileIfInherited]
  split <;> split <;> rfl

/-- A loop over the directories that finds none only leaves its name and the account. -/
theorem createInDirectories_failing (flags : Flags) :
    ∀ (directories : List (List Byte × Attempt)) (o : LogFileObject), o.file = none →
      (LogFileObject.createInDirectories flags directories o).1 = false →
        ∃ baseFilename, (LogFileObject.createInDirectories flags directories o).2 =
          { o with
            baseFilename := baseFilename
            fileLength := lengthAfterFailures flags (directories.map Prod.snd) o.fileLength }
  | [], o, _, _ => ⟨o.baseFilename, rfl⟩
  | (baseFilename, a) :: directories, o, hfile, hfails => by
    have hcreate := createLogfile_eq (o := { o with baseFilename := baseFilename }) flags a hfile
    rw [LogFileObject.createInDirectories] at hfails ⊢
    cases hsucceeds : a.succeeds flags
    · rw [hsucceeds, if_neg Bool.false_ne_true] at hcreate
      simp only [hcreate] at hfails ⊢
      obtain ⟨last, hlast⟩ := createInDirectories_failing flags directories _ rfl hfails
      rw [hlast, ← hfile]
      exact ⟨last, rfl⟩
    · rw [hsucceeds] at hcreate
      simp only [hcreate, Bool.true_eq_false] at hfails

/-- A failure leaves no file, and the length of the last file that it found. -/
theorem create_failing (hnamed : Named o) (hfile : o.file = none)
    (hfails : (o.create ctx).1 = false) :
    Named (o.create ctx).2 ∧ (o.create ctx).2.file = none ∧
      (o.create ctx).2.fileLength =
        lengthAfterFailures ctx.flags (attempts o ctx) o.fileLength ∧
      (o.create ctx).2.rolloverAttempt = o.rolloverAttempt := by
  cases hsource : o.filenameSource with
  | selected =>
    have hcreate : o.create ctx = o.createLogfile ctx.flags ctx.selected := by
      rw [LogFileObject.create, hsource]
    have hattempts : attempts o ctx = [ctx.selected] := by rw [attempts, hsource]
    rw [createLogfile_eq ctx.flags ctx.selected hfile] at hcreate
    rw [hcreate] at hfails ⊢
    rw [hattempts]
    exact ⟨hnamed, if_neg (ne_true_of_eq_false hfails), rfl, rfl⟩
  | default =>
    have hcreate : o.create ctx =
        LogFileObject.createInDirectories ctx.flags ctx.directories o := by
      rw [LogFileObject.create, hsource]
    have hattempts : attempts o ctx = ctx.directories.map Prod.snd := by rw [attempts, hsource]
    rw [hcreate] at hfails ⊢
    obtain ⟨baseFilename, hlast⟩ :=
      createInDirectories_failing ctx.flags ctx.directories o hfile hfails
    rw [hlast, hattempts]
    refine ⟨?_, hfile, rfl, rfl⟩
    rintro ⟨hselected, -⟩
    exact LogFilenameSource.noConfusion (hsource.symm.trans hselected)

theorem waiting_of_creationFails (h : CreationFails o ctx) (message : List Byte) :
    Waiting (lengthLeft o ctx) (kRolloverAttemptFrequency - 1) (o.writeUnlocked ctx message) := by
  obtain ⟨⟨hnamed, hfile, hattempt⟩, hfails⟩ := h
  have hwrite : o.writeUnlocked ctx message =
      ((attempting (afterRollover o ctx) ctx).create ctx).2 := by
    rw [writeUnlocked_of_named hnamed, ensureFile_eq hfile hattempt]
    rcases hcreate : (attempting (afterRollover o ctx) ctx).create ctx with ⟨_ | _, o'⟩
    · rfl
    · rw [hcreate] at hfails
      exact absurd hfails.symm Bool.false_ne_true
  have hnamed' : Named (attempting (afterRollover o ctx) ctx) := by
    rintro ⟨hsource, hbase⟩
    exact hnamed ⟨(afterRollover_filenameSource o ctx).symm.trans hsource,
      (afterRollover_baseFilename o ctx).symm.trans hbase⟩
  have hattempts : attempts (attempting (afterRollover o ctx) ctx) ctx = attempts o ctx := by
    rw [attempts, attempts, show (attempting (afterRollover o ctx) ctx).filenameSource =
      o.filenameSource from afterRollover_filenameSource o ctx]
  obtain ⟨hnamed'', hfile', hlength, hcounter⟩ := create_failing hnamed' hfile hfails
  rw [hattempts] at hlength
  rw [hwrite]
  exact ⟨hnamed'', hfile', hlength, by rw [hcounter]; rfl⟩

/-! ### The writes after a failure -/

/-- While the object waits, the writes back off if and only if for none of those that should wait
the length has reached the maximum. The induction is on the calls, with the writes that still have
to pass. -/
theorem backsOff_waiting_iff : ∀ (later : List Call) {n : ℕ} {o : LogFileObject},
    Waiting length n o → (∀ call ∈ later, call.KeepsName) →
      (BacksOff n o later ↔ ∀ ctx ∈ (writes later).take n, reachesMax ctx.flags length = false)
  | [], n, o, _, _ => by
    rw [BacksOff, writes, List.filterMap_nil, List.take_nil]
    exact iff_of_true trivial fun ctx hctx => absurd hctx List.not_mem_nil
  | call :: later, n, o, h, hkeeps => by
    have hlater : ∀ call ∈ later, call.KeepsName := fun call hcall =>
      hkeeps call (List.mem_cons_of_mem _ hcall)
    cases call with
    | write ctx message =>
      rw [show writes (.write ctx message :: later) = ctx :: writes later from rfl]
      cases hmax : reachesMax ctx.flags length with
      | false =>
        cases n with
        | zero =>
          rw [BacksOff, h.triesToCreate_iff hmax, List.take_zero]
          exact iff_of_true rfl fun ctx hctx => absurd hctx List.not_mem_nil
        | succ n =>
          have hwaits : ¬TriesToCreate o ctx :=
            mt (h.triesToCreate_iff hmax).mp (Nat.succ_ne_zero n)
          rw [BacksOff, List.take_succ_cons, List.forall_mem_cons,
            backsOff_waiting_iff later (h.writeUnlocked hmax message) hlater]
          exact and_congr_left fun _ => iff_of_true hwaits hmax
      | true =>
        have htries := h.triesToCreate_of_reachesMax hmax
        cases n with
        | zero =>
          rw [BacksOff, List.take_zero]
          exact iff_of_true htries fun ctx hctx => absurd hctx List.not_mem_nil
        | succ n =>
          rw [BacksOff, List.take_succ_cons, List.forall_mem_cons, hmax]
          exact iff_of_false (fun hbacks => hbacks.1 htries) fun hbelow =>
            Bool.false_ne_true hbelow.1.symm
    | discardFileIfInherited pid =>
      have hbacks : BacksOff n o (.discardFileIfInherited pid :: later) ↔
          BacksOff n (o.discardFileIfInherited pid) later := by
        cases n <;> rfl
      rw [hbacks, h.discardFileIfInherited]
      exact backsOff_waiting_iff later h hlater
    | setBasename pid basename => exact (hkeeps _ (List.mem_cons_self ..)).elim
    | setExtension pid ext => exact (hkeeps _ (List.mem_cons_self ..)).elim

/-- At any time, after a write that could not create a file, the next 31 writes do not try and the
32nd does, if and only if for none of these 31 the length that the failure left has reached the
maximal size. -/
theorem backsOff_iff (o : LogFileObject) (ctx : Context) (message : List Byte) (later : List Call)
    (hfails : CreationFails o ctx) (hkeeps : ∀ call ∈ later, call.KeepsName) :
    BacksOff 31 (o.writeUnlocked ctx message) later ↔
      ∀ next ∈ (writes later).take 31, reachesMax next.flags (lengthLeft o ctx) = false :=
  backsOff_waiting_iff later (waiting_of_creationFails hfails message) hkeeps

/-- Another process holds the lock of the file, which has two mebibytes. -/
def largeLockedContext : Context where
  flags := ⟨false, false, false, 1⟩
  pid := 1
  selected := ⟨some 2097152, true, false, true, true⟩
  directories := []
  header := none
  stopWriting := false

theorem creationFails_largeLockedContext :
    CreationFails (LogFileObject.init (some [108, 111, 103])) largeLockedContext :=
  ⟨⟨fun hdisabled => List.cons_ne_nil _ _ hdisabled.2, rfl, rfl⟩, rfl⟩

/-- The next write finds the two mebibytes and tries again. -/
theorem backsOff_largeLockedContext :
    BacksOff 31 ((LogFileObject.init (some [108, 111, 103])).writeUnlocked largeLockedContext [104])
      [.write largeLockedContext [105]] ↔
    ∀ next ∈ (writes [.write largeLockedContext [105]]).take 31, reachesMax next.flags
      (lengthLeft (LogFileObject.init (some [108, 111, 103])) largeLockedContext) = false :=
  backsOff_iff _ _ [104] [.write largeLockedContext [105]] creationFails_largeLockedContext
    (List.forall_mem_singleton.mpr trivial)

/-- Not every failure is followed by 31 writes that wait. -/
theorem retry_of_large_file : ¬∀ (baseFilename : Option (List Byte)) (history : List Call)
    (o : LogFileObject), run step (LogFileObject.init baseFilename) history = some o →
    ∀ (ctx : Context) (message : List Byte) (later : List Call), CreationFails o ctx →
      (∀ call ∈ history ++ later, call.KeepsName) →
        BacksOff 31 (o.writeUnlocked ctx message) later := by
  intro hall
  have hbacks := hall (some [108, 111, 103]) [] _ rfl largeLockedContext [104]
    [.write largeLockedContext [105]] creationFails_largeLockedContext
    (List.forall_mem_singleton.mpr trivial)
  refine hbacks.1 (Waiting.triesToCreate_of_reachesMax
    (waiting_of_creationFails creationFails_largeLockedContext [104]) ?_)
  rfl

end Files

end NgLog
