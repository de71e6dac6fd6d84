import NgLog.Cleaner.LogCleaner

/-!
# What the log cleaner removes

A scan works on copies of the patterns that were made some time ago, with the period that was set
then. So each file that it removes is justified by the calls up to some earlier point of the run: it
is overdue, and either the cleaner was given exactly that name, or the name is listed in a directory
of a pattern and matches the regular expression that was last made for the base name.

That it is overdue takes times that are compared within the range of 64 bits. A period of some
hundreds of years in nanoseconds is not, and may pass for a negative one.

## Main definitions

* `InForce`, `IsDirectoryOf` — the last call for a base name, and the directories of its pattern
* `IsOverdue`, `Justified` — what a removed file has to be
* `TimesFit`, `ComparesInRange` — the times that a visit compares are in range
* `Describes`, `Backed` — what the patterns and the threads hold

## Main results

* `getOverdueLogNames_spec`, `cleanupDirectories_spec` — what one visit removes, and where
* `inv_step` — every step that compares times in range keeps the invariant
* `unlinked_justified` — every file that is removed in any run of such steps is justified
* `unlinked_justified_fails` — a period that passes for a negative one
-/

namespace NgLog

namespace Cleaner

open Regex
open Transition

variable {Thread : Type}

/-! ### The calls that a removal goes back to -/

/-- The file is the last one with its base name. -/
def InForce (actions : List (Action Thread)) (file : LogFile) : Prop :=
  ∃ earlier later, actions = earlier ++ .addLogFile file :: later ∧
    ∀ file', .addLogFile file' ∈ later → file'.baseFilename ≠ file.baseFilename

/-- The period of the last call of `Enable`. -/
def overdueAfter (actions : List (Action Thread)) : ℤ :=
  actions.foldl (fun overdue action =>
    match action with
    | .enable _ overdue' => overdue'
    | _ => overdue) kInitialOverdue

/-- The directories of the pattern of a base name whose last file is given: the logging directories
or the directory of the base name, and those of all files with that base name. -/
def IsDirectoryOf (platform : Platform) (actions : List (Action Thread)) (file : LogFile)
    (directory : Name) : Prop :=
  (file.filenameSource = .kDefault ∧ ∃ d ∈ file.loggingDirectories, directory = orCurrent d) ∨
  (file.filenameSource = .kSelected ∧ directory = sourceDirectory platform file.baseFilename) ∨
  ∃ file', .addLogFile file' ∈ actions ∧ file'.baseFilename = file.baseFilename ∧
    directory = sourceDirectory platform file'.filename

/-- A file has been modified at least the period, in minutes, before the time, in nanoseconds. -/
def IsOverdue (files : Files) (currentTime overdue : ℤ) (path : Name) : Prop :=
  ∃ lastModifiedTime, files.modified path = some lastModifiedTime ∧
    lastModifiedTime * 10 ^ 9 + overdue * 60 * 10 ^ 9 ≤ currentTime

/-- What a removed file has to be. -/
structure Justified (platform : Platform) (actions : List (Action Thread)) (log : Unlink) :
    Prop where
  overdue : IsOverdue log.files log.currentTime log.overdue log.path
  source : ∃ calls, calls <+: actions ∧ log.overdue = overdueAfter calls ∧
    ((∃ file, .addLogFile file ∈ calls ∧ log.path = file.filename) ∨
    ∃ file directory name filenameRegex, InForce calls file ∧
      IsDirectoryOf platform calls file directory ∧ name ∈ log.files.entries directory ∧
      log.path = joinPath platform directory name ∧
      file.matcher platform = some filenameRegex ∧ regexMatch filenameRegex name = true)

theorem Justified.mono {platform : Platform} {actions : List (Action Thread)} {log : Unlink}
    (h : Justified platform actions log) (action : Action Thread) :
    Justified platform (actions ++ [action]) log := by
  obtain ⟨calls, hcalls, hsource⟩ := h.source
  exact ⟨h.overdue, calls, hcalls.trans (List.prefix_append ..), hsource⟩

/-! ### What the patterns hold -/

/-- The pattern is the one that the calls have made for the base name of the file. -/
structure Describes (platform : Platform) (actions : List (Action Thread)) (file : LogFile)
    (pattern : LogFilePattern) : Prop where
  inForce : InForce actions file
  filenameSource : pattern.filenameSource = file.filenameSource
  filenameRegex : file.matcher platform = some pattern.filenameRegex
  loggingDirectories : file.filenameSource = .kDefault →
    pattern.loggingDirectories = file.loggingDirectories
  filenames : ∀ names ∈ pattern.filenamesByDirectory, ∃ file', .addLogFile file' ∈ actions ∧
    file'.baseFilename = file.baseFilename ∧
    names = (sourceDirectory platform file'.filename, relativeFilename platform file'.filename)

/-- Each pattern is the one that the calls have made for its base name. -/
def Known (platform : Platform) (actions : List (Action Thread)) (patterns : Patterns) : Prop :=
  ∀ entry ∈ patterns, ∃ file, file.baseFilename = entry.1 ∧
    Describes platform actions file entry.2

section Patterns

variable {platform : Platform} {actions : List (Action Thread)} {file : LogFile}
  {pattern : LogFilePattern} {patterns : Patterns}

theorem inForce_concat (actions : List (Action Thread)) (file : LogFile) :
    InForce (actions ++ [Action.addLogFile file]) file :=
  ⟨actions, [], rfl, nofun⟩

/-- Calls for other base names change nothing. -/
theorem InForce.concat (h : InForce actions file) {action : Action Thread}
    (hother : ∀ file', action = .addLogFile file' → file'.baseFilename ≠ file.baseFilename) :
    InForce (actions ++ [action]) file := by
  obtain ⟨earlier, later, rfl, hlater⟩ := h
  refine ⟨earlier, later ++ [action], by simp, fun file' hfile' => ?_⟩
  rcases List.mem_append.mp hfile' with hmem | hmem
  · exact hlater file' hmem
  · exact hother file' (List.mem_singleton.mp hmem).symm

theorem Describes.concat (h : Describes platform actions file pattern) {action : Action Thread}
    (hother : ∀ file', action = .addLogFile file' → file'.baseFilename ≠ file.baseFilename) :
    Describes platform (actions ++ [action]) file pattern where
  inForce := h.inForce.concat hother
  filenameSource := h.filenameSource
  filenameRegex := h.filenameRegex
  loggingDirectories := h.loggingDirectories
  filenames names hnames := by
    obtain ⟨file', hmem, hrest⟩ := h.filenames names hnames
    exact ⟨file', List.mem_append_left _ hmem, hrest⟩

theorem Known.concat (h : Known platform actions patterns) (action : Action Thread)
    (hother : ∀ file, action ≠ .addLogFile file) :
    Known platform (actions ++ [action]) patterns := by
  intro entry hentry
  obtain ⟨file, hbase, hdescribes⟩ := h entry hentry
  exact ⟨file, hbase, hdescribes.concat fun file' heq => absurd heq (hother file')⟩

theorem Known.schedule (h : Known platform actions patterns)
    (nextCleanupTime : LogFilePattern → ℤ) :
    Known platform actions (patterns.schedule nextCleanupTime) := by
  intro entry hentry
  obtain ⟨entry', hentry', rfl⟩ := List.mem_map.mp hentry
  obtain ⟨file, hbase, hdescribes⟩ := h entry' hentry'
  exact ⟨file, hbase, { hdescribes with }⟩

/-- The names that are registered for a base name, also before there is a pattern for it. -/
theorem Known.filenames_at (h : Known platform actions patterns) (key : Name) :
    ∀ names ∈ (patterns.at key).filenamesByDirectory, ∃ file', .addLogFile file' ∈ actions ∧
      file'.baseFilename = key ∧
      names = (sourceDirectory platform file'.filename,
        relativeFilename platform file'.filename) := by
  intro names hnames
  rw [Patterns.at] at hnames
  rcases hlookup : patterns.lookup key with _ | pattern
  · rw [hlookup] at hnames
    cases hnames
  · rw [hlookup] at hnames
    obtain ⟨before, after, hpatterns, -⟩ := List.lookup_eq_some_iff.mp hlookup
    obtain ⟨file, rfl, hdescribes⟩ := h (key, pattern) (by rw [hpatterns]; simp)
    exact hdescribes.filenames names hnames

/-- A call of `AddLogFile` replaces the pattern of its base name and leaves the others. -/
theorem Known.addLogFile (h : Known platform actions patterns) {filenameRegex : List Term}
    (hregex : file.matcher platform = some filenameRegex) :
    Known platform (actions ++ [Action.addLogFile file]) (patterns.set file.baseFilename
      ((patterns.at file.baseFilename).addLogFile platform file filenameRegex)) := by
  intro entry hentry
  rcases List.mem_cons.mp hentry with rfl | hentry
  · refine ⟨file, rfl, inForce_concat actions file, rfl, hregex, fun hdefault => if_pos hdefault,
      fun names hnames => ?_⟩
    rcases List.mem_insert_iff.mp hnames with rfl | hnames
    · exact ⟨file, List.mem_append_right _ (List.mem_singleton_self _), rfl, rfl⟩
    · obtain ⟨file', hmem, hrest⟩ := h.filenames_at file.baseFilename names hnames
      exact ⟨file', List.mem_append_left _ hmem, hrest⟩
  · obtain ⟨hentry, hne⟩ := List.mem_filter.mp hentry
    obtain ⟨file', hbase, hdescribes⟩ := h entry hentry
    refine ⟨file', hbase, hdescribes.concat ?_⟩
    rintro file'' heq
    obtain rfl := Action.addLogFile.inj heq
    rw [hbase]
    exact (of_decide_eq_true hne).symm

end Patterns

/-! ### What a visit removes -/

/-- A number of nanoseconds that 64 bits hold. -/
def Fits (count : ℤ) : Prop := -9223372036854775808 ≤ count ∧ count < 9223372036854775808

instance decidableFits (count : ℤ) : Decidable (Fits count) := instDecidableAnd

/-- The period, the modification time of the file and its distance from the time of the scan, in
nanoseconds, are in range. -/
def TimesFit (files : Files) (currentTime overdue : ℤ) (path : Name) : Prop :=
  ∀ lastModifiedTime, files.modified path = some lastModifiedTime →
    Fits (overdue * 60 * 10 ^ 9) ∧ Fits (lastModifiedTime * 10 ^ 9) ∧
      Fits (currentTime - lastModifiedTime * 10 ^ 9)

/-- A visit compares times in range only. -/
def ComparesInRange (platform : Platform) (s : State Thread) : Action Thread → Prop
  | .visit t files => ∀ scanner currentTime overdue next visits,
      s.activity t = .scanning scanner currentTime overdue (next :: visits) →
      ∀ path ∈ candidates platform files next.directory next.pattern,
        TimesFit files currentTime overdue path
  | _ => True

theorem nanoseconds_of_fits {count : ℤ} (h : Fits count) : nanoseconds count = count := by
  obtain ⟨hlow, hhigh⟩ := h
  exact Int.bmod_eq_of_le (by omega) (by omega)

/-- In range the comparison is that of the times. -/
theorem isLogLastModifiedOverPath_iff {files : Files} {currentTime overdue : ℤ} {path : Name}
    (h : TimesFit files currentTime overdue path) :
    isLogLastModifiedOverPath files currentTime overdue path = true ↔
      IsOverdue files currentTime overdue path := by
  rw [isLogLastModifiedOverPath, IsOverdue]
  rcases hmodified : files.modified path with _ | lastModifiedTime
  · simp
  · obtain ⟨hperiod, htime, hdiff⟩ := h lastModifiedTime hmodified
    simp only [minutes, fromTime, nanoseconds_of_fits hperiod, nanoseconds_of_fits htime,
      nanoseconds_of_fits hdiff, decide_eq_true_eq, Option.some.injEq, exists_eq_left']
    omega

/-- The names that a visit removes are overdue, if the times are in range, and registered or
matching. -/
theorem getOverdueLogNames_spec {platform : Platform} {files : Files} {directory log : Name}
    {currentTime overdue : ℤ} {pattern : LogFilePattern}
    (hfit : ∀ path ∈ candidates platform files directory pattern,
      TimesFit files currentTime overdue path)
    (h : log ∈ getOverdueLogNames platform files directory currentTime overdue pattern) :
    IsOverdue files currentTime overdue log ∧
    ((∃ name, (directory, name) ∈ pattern.filenamesByDirectory ∧
      log = joinPath platform directory name) ∨
    ∃ name ∈ files.entries directory, regexMatch pattern.filenameRegex name = true ∧
      log = joinPath platform directory name) := by
  rw [getOverdueLogNames, List.mem_dedup, List.mem_filter] at h
  obtain ⟨hpath, hoverdue⟩ := h
  refine ⟨(isLogLastModifiedOverPath_iff (hfit log hpath)).mp hoverdue, ?_⟩
  obtain ⟨name, hname, rfl⟩ := List.mem_map.mp hpath
  rcases List.mem_append.mp hname with hexact | hmatching
  · obtain ⟨⟨source, name'⟩, hfiltered, rfl⟩ := List.mem_map.mp hexact
    obtain ⟨hmem, hsource⟩ := List.mem_filter.mp hfiltered
    obtain rfl : source = directory := of_decide_eq_true hsource
    exact .inl ⟨name', hmem, rfl⟩
  · obtain ⟨hmem, hmatch⟩ := List.mem_filter.mp hmatching
    exact .inr ⟨name, hmem, hmatch, rfl⟩

theorem orCurrent_of_ne_nil {directory : Name} (h : directory ≠ []) :
    orCurrent directory = directory := if_neg h

theorem take_ne_nil_of_findLastOf {characters : List Byte} {text : Name} {position : ℕ}
    (h : findLastOf characters text = some position) : text.take (position + 1) ≠ [] :=
  List.ne_nil_of_length_eq_add_one (List.length_take_of_le (Nat.succ_le_of_lt (findLastOf_lt h)))

theorem sourceDirectory_ne_nil (platform : Platform) (filename : Name) :
    sourceDirectory platform filename ≠ [] := by
  rw [sourceDirectory]
  split
  · exact List.cons_ne_nil _ _
  · exact take_ne_nil_of_findLastOf ‹_›

/-- A scan visits the directories of the pattern only. -/
theorem cleanupDirectories_spec {platform : Platform} {actions : List (Action Thread)}
    {file : LogFile} {pattern : LogFilePattern} {directory : Name}
    (hpattern : Describes platform actions file pattern)
    (h : directory ∈ cleanupDirectories platform file.baseFilename pattern) :
    IsDirectoryOf platform actions file directory := by
  rw [cleanupDirectories, List.mem_dedup, List.mem_append, hpattern.filenameSource] at h
  rcases h with hbase | hnames
  · rcases hsource : file.filenameSource with _ | _
    · rw [hsource] at hbase
      dsimp only at hbase
      rw [hpattern.loggingDirectories hsource] at hbase
      obtain ⟨d, hd, rfl⟩ := List.mem_map.mp hbase
      exact .inl ⟨hsource, d, hd, rfl⟩
    · rw [hsource] at hbase
      refine .inr (.inl ⟨hsource, ?_⟩)
      rw [sourceDirectory]
      rcases hfind : findLastOf platform.possibleDirDelim file.baseFilename with _ | position
      · rw [hfind] at hbase
        exact List.mem_singleton.mp hbase
      · rw [hfind] at hbase
        rw [List.mem_singleton.mp hbase, orCurrent_of_ne_nil (take_ne_nil_of_findLastOf hfind)]
  · obtain ⟨names, hregistered, rfl⟩ := List.mem_map.mp hnames
    obtain ⟨file', hmem, hbase, rfl⟩ := hpattern.filenames names hregistered
    exact .inr (.inr ⟨file', hmem, hbase, orCurrent_of_ne_nil (sourceDirectory_ne_nil _ _)⟩)

/-! ### The invariant -/

/-- The visits that remain are those of patterns that calls have made. -/
def Planned (platform : Platform) (calls : List (Action Thread)) (visits : List Visit) : Prop :=
  ∀ next ∈ visits, ∃ file, file.baseFilename = next.baseFilename ∧
    Describes platform calls file next.pattern ∧
    next.directory ∈ cleanupDirectories platform next.baseFilename next.pattern

/-- What a thread works on goes back to the calls up to some point. -/
def Backed (platform : Platform) (actions : List (Action Thread)) : Activity Thread → Prop
  | .collected _ overdue due => ∃ calls, calls <+: actions ∧ overdue = overdueAfter calls ∧
      Known platform calls due
  | .scanning _ _ overdue visits => ∃ calls, calls <+: actions ∧ overdue = overdueAfter calls ∧
      Planned platform calls visits
  | _ => True

/-- What the calls have made of the cleaner. -/
structure Inv (platform : Platform) (actions : List (Action Thread)) (s : State Thread) : Prop where
  known : Known platform actions s.patterns
  overdue : s.overdue = overdueAfter actions
  backed : ∀ t, Backed platform actions (s.activity t)
  unlinked : ∀ log ∈ s.unlinked, Justified platform actions log

theorem inv_init (platform : Platform) : Inv platform [] (State.init Thread) where
  known := nofun
  overdue := rfl
  backed _ := trivial
  unlinked := nofun

theorem Backed.concat {platform : Platform} {actions : List (Action Thread)}
    {activity : Activity Thread} (h : Backed platform actions activity) (action : Action Thread) :
    Backed platform (actions ++ [action]) activity := by
  match activity, h with
  | .none, _ => trivial
  | .looping, _ => trivial
  | .joining _ _, _ => trivial
  | .collected _ _ _, ⟨calls, hcalls, hrest⟩ =>
    exact ⟨calls, hcalls.trans (List.prefix_append ..), hrest⟩
  | .scanning _ _ _ _, ⟨calls, hcalls, hrest⟩ =>
    exact ⟨calls, hcalls.trans (List.prefix_append ..), hrest⟩

theorem overdueAfter_concat (actions : List (Action Thread)) {action : Action Thread}
    (h : ∀ worker overdue, action ≠ .enable worker overdue) :
    overdueAfter (actions ++ [action]) = overdueAfter actions := by
  rw [overdueAfter, List.foldl_append]
  cases action with
  | enable worker overdue => exact absurd rfl (h worker overdue)
  | _ => rfl

theorem overdueAfter_enable (actions : List (Action Thread)) (worker : Thread) (overdue : ℤ) :
    overdueAfter (actions ++ [Action.enable worker overdue]) = overdue := by
  rw [overdueAfter, List.foldl_append]
  rfl

section Steps

variable [DecidableEq Thread] {platform : Platform} {actions : List (Action Thread)}
  {s s' : State Thread} {t : Thread}

omit [DecidableEq Thread] in
/-- A step that changes neither the patterns nor the period. -/
theorem Inv.concat (h : Inv platform actions s) (action : Action Thread)
    (hfile : ∀ file, action ≠ .addLogFile file)
    (henable : ∀ worker overdue, action ≠ .enable worker overdue) :
    Inv platform (actions ++ [action]) s where
  known := h.known.concat action hfile
  overdue := h.overdue.trans (overdueAfter_concat actions henable).symm
  backed t := (h.backed t).concat action
  unlinked log hlog := (h.unlinked log hlog).mono action

/-- Only the activity of one thread changes. -/
theorem Inv.setActivity (h : Inv platform actions s) (t : Thread) {activity : Activity Thread}
    (hactivity : Backed platform actions activity) :
    Inv platform actions (s.setActivity t activity) where
  known := h.known
  overdue := h.overdue
  backed t' := by
    rw [State.setActivity]
    dsimp only
    by_cases ht : t' = t
    · subst ht
      rw [Function.update_self]
      exact hactivity
    · rw [Function.update_of_ne ht]
      exact h.backed t'
  unlinked := h.unlinked

omit [DecidableEq Thread] in
theorem inv_addLogFile {file : LogFile} (h : Inv platform actions s)
    (hstep : s.addLogFile platform file = some s') :
    Inv platform (actions ++ [Action.addLogFile file]) s' := by
  rw [State.addLogFile, Option.map_eq_some_iff] at hstep
  obtain ⟨filenameRegex, hregex, rfl⟩ := hstep
  exact
    { known := h.known.addLogFile hregex
      overdue := h.overdue.trans (overdueAfter_concat actions (by simp)).symm
      backed := fun t => (h.backed t).concat _
      unlinked := fun log hlog => (h.unlinked log hlog).mono _ }

theorem inv_enable {worker : Thread} {overdue : ℤ} (h : Inv platform actions s)
    (hstep : s.enable worker overdue = some s') :
    Inv platform (actions ++ [Action.enable worker overdue]) s' := by
  have hknown := h.known.concat (.enable worker overdue) nofun
  have hbacked := fun t => (h.backed t).concat (.enable worker overdue)
  have hunlinked := fun log hlog => (h.unlinked log hlog).mono (.enable worker overdue)
  rw [State.enable] at hstep
  split at hstep
  · obtain rfl := Option.some.inj hstep
    exact ⟨hknown, (overdueAfter_enable ..).symm, hbacked, hunlinked⟩
  · split at hstep
    · obtain rfl := Option.some.inj hstep
      refine Inv.setActivity ?_ worker trivial
      exact ⟨hknown.schedule fun _ => 0, (overdueAfter_enable ..).symm, hbacked, hunlinked⟩
    · cases hstep

theorem inv_stop {disable : Bool} (h : Inv platform actions s)
    (hstep : s.stop t disable = some s') :
    Inv platform (actions ++ [Action.stop t disable]) s' := by
  have hconcat := h.concat (.stop t disable) nofun nofun
  rw [State.stop] at hstep
  split at hstep
  · obtain rfl := Option.some.inj hstep
    refine Inv.setActivity ?_ t trivial
    exact ⟨hconcat.known, hconcat.overdue, hconcat.backed, hconcat.unlinked⟩
  · cases hstep

theorem inv_join (h : Inv platform actions s) (hstep : s.join t = some s') :
    Inv platform (actions ++ [Action.join t]) s' := by
  have hconcat := h.concat (.join t) nofun nofun
  rw [State.join] at hstep
  split at hstep
  · split at hstep
    · obtain rfl := Option.some.inj hstep
      refine hconcat.setActivity t ?_
      split
      · exact ⟨_, List.prefix_refl _, hconcat.overdue, hconcat.known⟩
      · trivial
    · cases hstep
  · cases hstep

theorem inv_collect {now logcleansecs : ℤ} (h : Inv platform actions s)
    (hstep : s.collect t now logcleansecs = some s') :
    Inv platform (actions ++ [Action.collect t now logcleansecs]) s' := by
  have hconcat := h.concat (.collect t now logcleansecs) nofun nofun
  rw [State.collect] at hstep
  split at hstep
  · split at hstep
    · dsimp only at hstep
      split at hstep
      · obtain rfl := Option.some.inj hstep
        exact hconcat
      · obtain rfl := Option.some.inj hstep
        have hdue : Known platform (actions ++ [Action.collect t now logcleansecs])
            (s.patterns.filter fun pattern => pattern.2.nextCleanupTime ≤ now) :=
          fun entry hentry => hconcat.known entry (List.mem_of_mem_filter hentry)
        refine Inv.setActivity ?_ t ⟨_, List.prefix_refl _, hconcat.overdue, hdue⟩
        refine ⟨?_, hconcat.overdue, hconcat.backed, hconcat.unlinked⟩
        dsimp only
        exact hconcat.known.schedule _
    · obtain rfl := Option.some.inj hstep
      exact hconcat.setActivity t trivial
  · cases hstep

theorem inv_readClock {currentTime : ℤ} (h : Inv platform actions s)
    (hstep : s.readClock platform t currentTime = some s') :
    Inv platform (actions ++ [Action.readClock t currentTime]) s' := by
  have hconcat := h.concat (.readClock t currentTime) nofun nofun
  have hbacked := hconcat.backed t
  rw [State.readClock] at hstep
  split at hstep
  · rename_i scanner overdue due hactivity
    obtain rfl := Option.some.inj hstep
    rw [hactivity] at hbacked
    obtain ⟨calls, hcalls, hoverdue, hknown⟩ := hbacked
    refine hconcat.setActivity t ⟨calls, hcalls, hoverdue, fun next hnext => ?_⟩
    obtain ⟨entry, hentry, hnext⟩ := List.mem_flatMap.mp hnext
    obtain ⟨directory, hdirectory, rfl⟩ := List.mem_map.mp hnext
    obtain ⟨file, hbase, hdescribes⟩ := hknown entry hentry
    exact ⟨file, hbase, hdescribes, hdirectory⟩
  · cases hstep

omit [DecidableEq Thread] in
/-- What a planned visit removes is justified. -/
theorem justified_of_planned {calls : List (Action Thread)} (hcalls : calls <+: actions)
    {next : Visit} {visits : List Visit} (hplanned : Planned platform calls (next :: visits))
    {files : Files} {currentTime overdue : ℤ} (hoverdue : overdue = overdueAfter calls)
    (hfit : ∀ path ∈ candidates platform files next.directory next.pattern,
      TimesFit files currentTime overdue path)
    {path : Name} (h : path ∈ getOverdueLogNames platform files next.directory currentTime overdue
      next.pattern) : Justified platform actions ⟨path, files, currentTime, overdue⟩ := by
  obtain ⟨hmodified, hsource⟩ := getOverdueLogNames_spec hfit h
  obtain ⟨file, hbase, hdescribes, hdirectory⟩ := hplanned next (List.mem_cons_self ..)
  rw [← hbase] at hdirectory
  refine ⟨hmodified, calls, hcalls, hoverdue, ?_⟩
  rcases hsource with ⟨name, hname, rfl⟩ | ⟨name, hname, hmatch, rfl⟩
  · obtain ⟨file', hmem, -, heq⟩ := hdescribes.filenames _ hname
    obtain ⟨hsource, rfl⟩ := Prod.mk.inj heq
    refine .inl ⟨file', hmem, ?_⟩
    rw [hsource]
    exact joinPath_sourceDirectory platform file'.filename
  · exact .inr ⟨file, next.directory, name, _, hdescribes.inForce,
      cleanupDirectories_spec hdescribes hdirectory, hname, rfl, hdescribes.filenameRegex, hmatch⟩

theorem inv_visit {files : Files} (hrange : ComparesInRange platform s (.visit t files))
    (h : Inv platform actions s)
    (hstep : s.visit platform t files = some s') :
    Inv platform (actions ++ [Action.visit t files]) s' := by
  have hconcat := h.concat (.visit t files) nofun nofun
  have hbacked := hconcat.backed t
  rw [State.visit] at hstep
  split at hstep
  · rename_i scanner currentTime overdue next visits hactivity
    obtain rfl := Option.some.inj hstep
    rw [hactivity] at hbacked
    obtain ⟨calls, hcalls, hoverdue, hplanned⟩ := hbacked
    refine Inv.setActivity ?_ t
      ⟨calls, hcalls, hoverdue, fun v hv => hplanned v (List.mem_cons_of_mem _ hv)⟩
    refine ⟨hconcat.known, hconcat.overdue, hconcat.backed, fun log hlog => ?_⟩
    rcases List.mem_append.mp hlog with hlog | hlog
    · exact hconcat.unlinked log hlog
    · obtain ⟨path, hpath, rfl⟩ := List.mem_map.mp hlog
      exact justified_of_planned hcalls hplanned hoverdue
        (hrange _ _ _ _ _ hactivity) hpath
  · cases hstep

theorem inv_finish (h : Inv platform actions s) (hstep : s.finish t = some s') :
    Inv platform (actions ++ [Action.finish t]) s' := by
  have hconcat := h.concat (.finish t) nofun nofun
  rw [State.finish] at hstep
  split at hstep
  · obtain rfl := Option.some.inj hstep
    exact hconcat.setActivity t trivial
  · obtain rfl := Option.some.inj hstep
    exact hconcat.setActivity t trivial
  · cases hstep

/-- Every step that compares times in range keeps the invariant. -/
theorem inv_step {action : Action Thread} (hrange : ComparesInRange platform s action)
    (h : Inv platform actions s)
    (hstep : step platform s action = some s') : Inv platform (actions ++ [action]) s' := by
  cases action with
  | addLogFile file => exact inv_addLogFile h hstep
  | enable worker overdue => exact inv_enable h hstep
  | stop t disable => exact inv_stop h hstep
  | join t => exact inv_join h hstep
  | collect t now logcleansecs => exact inv_collect h hstep
  | readClock t currentTime => exact inv_readClock h hstep
  | visit t files => exact inv_visit hrange h hstep
  | finish t => exact inv_finish h hstep

/-- In every run that compares times in range only, with whatever the file system answers, every
file that is removed was last modified at least the period before the time of the scan, and either
has a name that was registered, or is listed in a directory of a registered pattern under a name
that matches its regular expression. -/
theorem unlinked_justified (platform : Platform) {actions : List (Action Thread)}
    {s : State Thread}
    (hrange : Along (step platform) (ComparesInRange platform) (State.init Thread) actions)
    (h : run (step platform) (State.init Thread) actions = some s) :
    ∀ log ∈ s.unlinked, Justified platform actions log := by
  have hinv := Transition.along_history (H := Inv platform) (fun _ _ _ _ => inv_step)
    hrange (inv_init platform) h
  rw [List.nil_append] at hinv
  exact hinv.unlinked

/-- A log file is registered and its directory scanned. -/
def registerAndScan (overdue currentTime : ℤ) : List (Action Unit) :=
  [.addLogFile ⟨.kSelected, bytes "l/a", bytes "l/a20260101-000000.7", [], true, []⟩,
    .enable () overdue, .collect () 0 1, .readClock () currentTime]

/-- The directory lists an older file. -/
def olderFile : Files where
  entries _ := [bytes "a20250101-000000.42", bytes "b"]
  modified path := if path = bytes "l/a20260101-000000.7" then some 90 else some 0

/-- A visit behind these steps compares the times of the scan. -/
theorem along_registerAndScan {overdue currentTime : ℤ} {files : Files}
    (hscan : ∀ s,
      run (step .posix) (State.init Unit) (registerAndScan overdue currentTime) = some s →
      ComparesInRange .posix s (.visit () files)) :
    Along (step .posix) (ComparesInRange .posix) (State.init Unit)
      (registerAndScan overdue currentTime ++ [Action.visit () files]) := by
  refine along_cons.mpr ⟨trivial, fun s₁ h₁ => along_cons.mpr ⟨trivial, fun s₂ h₂ =>
    along_cons.mpr ⟨trivial, fun s₃ h₃ => along_cons.mpr ⟨trivial, fun s₄ h₄ =>
    along_cons.mpr ⟨hscan s₄ ?_, fun s₅ _ => along_nil _ s₅⟩⟩⟩⟩⟩
  rw [registerAndScan, run_cons_eq_some]
  exact ⟨s₁, h₁, run_cons_eq_some.mpr ⟨s₂, h₂, run_cons_eq_some.mpr ⟨s₃, h₃,
    run_cons_eq_some.mpr ⟨s₄, h₄, rfl⟩⟩⟩⟩

/-- The times of the scan that a thread is in. -/
def Activity.times : Activity Unit → Option (ℤ × ℤ)
  | .scanning _ currentTime overdue _ => some (currentTime, overdue)
  | _ => Option.none

theorem olderFile_timesFit (path : Name) : TimesFit olderFile (120 * 10 ^ 9) 1 path := by
  intro lastModifiedTime hmodified
  have htime : lastModifiedTime = 90 ∨ lastModifiedTime = 0 := by
    rw [olderFile] at hmodified
    dsimp only at hmodified
    split at hmodified <;> cases hmodified
    · exact .inl rfl
    · exact .inr rfl
  rcases htime with rfl | rfl <;> exact ⟨by decide, by decide, by decide⟩

/-- The file of an earlier run is removed, from the directory in which another one is registered. -/
theorem unlinked_justified_earlier : ∃ s, run (step .posix) (State.init Unit)
      (registerAndScan 1 (120 * 10 ^ 9) ++ [Action.visit () olderFile]) = some s ∧
      s.unlinked.map (·.path) = [bytes "l/a20250101-000000.42"] ∧
      ∀ log ∈ s.unlinked,
        Justified .posix (registerAndScan 1 (120 * 10 ^ 9) ++ [Action.visit () olderFile]) log := by
  have hpaths : (run (step .posix) (State.init Unit)
      (registerAndScan 1 (120 * 10 ^ 9) ++ [Action.visit () olderFile])).map
        (fun s => s.unlinked.map (·.path)) = some [bytes "l/a20250101-000000.42"] := by
    decide +kernel
  have htimes : (run (step .posix) (State.init Unit) (registerAndScan 1 (120 * 10 ^ 9))).map
      (fun s => (s.activity ()).times) = some (some (120 * 10 ^ 9, 1)) := by
    decide +kernel
  obtain ⟨s, hrun, hpaths⟩ := Option.map_eq_some_iff.mp hpaths
  refine ⟨s, hrun, hpaths, unlinked_justified .posix (along_registerAndScan fun s hs => ?_) hrun⟩
  intro scanner currentTime overdue next visits hactivity path _
  rw [hs, Option.map_some, hactivity] at htimes
  obtain ⟨rfl, rfl⟩ := Prod.mk.inj (Option.some.inj (Option.some.inj htimes))
  exact olderFile_timesFit path

/-- The files have just been modified. -/
def freshFile : Files where
  entries _ := [bytes "a20250101-000000.42"]
  modified _ := some 1700000000

/-- With a period of a million days, which passes for a negative one, a file is removed that has
just been modified. -/
theorem unlinked_justified_fails :
    ¬ ∀ (platform : Platform) (actions : List (Action Unit)) (s : State Unit),
      run (step platform) (State.init Unit) actions = some s →
      ∀ log ∈ s.unlinked, Justified platform actions log := by
  intro hall
  have hremoved : (run (step .posix) (State.init Unit)
      (registerAndScan 1440000000 (1700000000 * 10 ^ 9) ++ [Action.visit () freshFile])).map
        (fun s => s.unlinked.map fun log => (log.files.modified log.path, log.currentTime,
          log.overdue)) =
      some [(some 1700000000, 1700000000 * 10 ^ 9, 1440000000),
        (some 1700000000, 1700000000 * 10 ^ 9, 1440000000)] := by
    decide +kernel
  obtain ⟨s, hrun, hremoved⟩ := Option.map_eq_some_iff.mp hremoved
  obtain ⟨log, hlog, hlogs⟩ := List.mem_map.mp
    (hremoved ▸ List.mem_cons_self .. : _ ∈ s.unlinked.map fun log =>
      (log.files.modified log.path, log.currentTime, log.overdue))
  obtain ⟨hmodified, hrest⟩ := Prod.mk.inj hlogs
  obtain ⟨htime, hoverdue⟩ := Prod.mk.inj hrest
  obtain ⟨lastModifiedTime, hlast, hle⟩ := (hall .posix _ s hrun log hlog).overdue
  obtain rfl := Option.some.inj (hlast.symm.trans hmodified)
  rw [htime, hoverdue] at hle
  exact absurd hle (by decide)

end Steps

end Cleaner

end NgLog
