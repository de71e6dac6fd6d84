import NgLog.Support.Regex

/-!
# The names of log files

The log cleaner finds log files of earlier runs by their names. `MakeLogFilenameMatcher` makes a
regular expression of the base name and the extension, which are user-supplied and therefore
escaped, and of the form of the time between them.

## Main definitions

* `joinPath`, `sourceDirectory`, `relativeFilename` — directories and names
* `makeLogFilenameMatcher` — the regular expression

## Main results

* `makeLogFilenameMatcher_eq_some` — it can always be compiled
* `regexMatch_makeLogFilenameMatcher_iff` — it matches the names that `MakeLogFilename` makes of the
  base name and the extension, with some time, and no others
* `joinPath_sourceDirectory` — splitting a file name and joining the parts gives it back
-/

namespace NgLog

namespace Cleaner

open Regex

/-- A `std::string` that names a file or a directory. -/
abbrev Name : Type := List Byte

inductive Platform
  | posix
  | windows
  deriving DecidableEq

/-- `possible_dir_delim`. -/
def Platform.possibleDirDelim : Platform → List Byte
  | .posix => bytes "/"
  | .windows => bytes "\\/"

/-- `path_delim`. -/
def Platform.pathDelim : Platform → Byte
  | .posix => '/'.toUInt8
  | .windows => '\\'.toUInt8

/-- `std::string::find_last_of`. -/
def findLastOf (characters : List Byte) : Name → Option ℕ
  | [] => none
  | c :: text =>
    match findLastOf characters text with
    | some position => some (position + 1)
    | none => if c ∈ characters then some 0 else none

/-- `JoinPath`. -/
def joinPath (platform : Platform) (directory filename : Name) : Name :=
  if directory = bytes "." then filename
  else if directory ≠ [] ∧
      findLastOf platform.possibleDirDelim directory = some (directory.length - 1) then
    directory ++ filename
  else directory ++ platform.pathDelim :: filename

/-- `source_directory` in `AddLogFile`. -/
def sourceDirectory (platform : Platform) (filename : Name) : Name :=
  match findLastOf platform.possibleDirDelim filename with
  | none => bytes "."
  | some separator => filename.take (separator + 1)

/-- `relative_filename` in `AddLogFile`. -/
def relativeFilename (platform : Platform) (filename : Name) : Name :=
  match findLastOf platform.possibleDirDelim filename with
  | none => filename
  | some separator => filename.drop (separator + 1)

/-- `const_basename` of the C string of a name, which ends before the first NUL. -/
def constBasename (platform : Platform) (filepath : Name) : Name :=
  relativeFilename platform (filepath.takeWhile (· ≠ 0))

def regexCharacters : List Byte := bytes "\\.^$|()[]\x7b\x7d*+?"

/-- `EscapeRegexCharacters`. `strchr` also finds the terminator of the list. -/
def escapeRegexCharacters (input : List Byte) : List Byte :=
  input.flatMap fun character =>
    if character ∈ regexCharacters ∨ character = 0 then ['\\'.toUInt8, character] else [character]

def logFilenameTimestampPattern : List Byte :=
  bytes "[0-9]\x7b8\x7d-[0-9]\x7b6\x7d\\.[0-9]+"

def logFilenameNeverMatchPattern : List Byte := bytes "a^"

/-- `MakeLogFilenameMatcher`; `none` if the constructor of `std::regex` throws. -/
def makeLogFilenameMatcher (baseFilename filenameExtension : Name) (timestampInLogfileName : Bool) :
    Option (List Term) :=
  if baseFilename = [] ∧ timestampInLogfileName = true then compile logFilenameNeverMatchPattern
  else
    compile (bytes "^" ++ escapeRegexCharacters baseFilename ++
      (if timestampInLogfileName then logFilenameTimestampPattern else []) ++
      escapeRegexCharacters filenameExtension ++ bytes "$")

/-! ### Directories -/

theorem findLastOf_lt {characters : List Byte} {text : Name} {position : ℕ}
    (h : findLastOf characters text = some position) : position < text.length := by
  induction text generalizing position with
  | nil => cases h
  | cons c text ih =>
    rw [findLastOf] at h
    split at h
    · rename_i hfound
      obtain rfl := Option.some.inj h
      exact Nat.succ_lt_succ (ih hfound)
    · split at h
      · obtain rfl := Option.some.inj h
        exact Nat.succ_pos _
      · cases h

/-- The part up to the last delimiter ends with a delimiter. -/
theorem findLastOf_take {characters : List Byte} {text : Name} {position : ℕ}
    (h : findLastOf characters text = some position) :
    findLastOf characters (text.take (position + 1)) = some position := by
  induction text generalizing position with
  | nil => cases h
  | cons c text ih =>
    rw [findLastOf] at h
    split at h
    · rename_i hfound
      obtain rfl := Option.some.inj h
      rw [List.take_succ_cons, findLastOf, ih hfound]
    · split at h
      · rename_i hmem
        obtain rfl := Option.some.inj h
        rw [List.take_succ_cons, List.take_zero, findLastOf, findLastOf, if_pos hmem]
      · cases h

/-- What `AddLogFile` splits, `JoinPath` puts together again. -/
theorem joinPath_sourceDirectory (platform : Platform) (filename : Name) :
    joinPath platform (sourceDirectory platform filename) (relativeFilename platform filename) =
      filename := by
  rw [sourceDirectory, relativeFilename]
  rcases hfind : findLastOf platform.possibleDirDelim filename with _ | separator
  · exact if_pos rfl
  · have hlt := findLastOf_lt hfind
    have htake := findLastOf_take hfind
    have hlength := List.length_take_of_le (Nat.succ_le_of_lt hlt)
    -- the directory ends with a delimiter, so it is not the current one
    have hdot : filename.take (separator + 1) ≠ bytes "." := by
      intro heq
      rw [heq] at htake
      cases platform <;> cases htake
    dsimp only
    rw [joinPath, if_neg hdot, if_pos]
    · exact List.take_append_drop _ _
    · refine ⟨List.ne_nil_of_length_eq_add_one hlength, ?_⟩
      rw [htake, hlength]
      rfl

/-! ### The regular expression -/

/-- An escaped text is read as a text that stands for itself. -/
theorem lex_escapeRegexCharacters (text rest : List Byte) :
    lex .outside (escapeRegexCharacters text ++ rest) =
      (lex .outside rest).map (literalTokens text ++ ·) := by
  induction text with
  | nil =>
    rw [literalTokens, List.map_nil]
    exact Option.map_id'.symm
  | cons c text ih =>
    have hcons : literalTokens (c :: text) = .atom (.character c) :: literalTokens text := rfl
    rw [escapeRegexCharacters, List.flatMap_cons, List.append_assoc]
    change lex .outside (_ ++ (escapeRegexCharacters text ++ rest)) = _
    by_cases hescaped : c ∈ regexCharacters ∨ c = 0
    · have hword : isWordByte c = false := by
        rcases hescaped with hmem | rfl
        · exact not_isWordByte_of_mem_syntaxBytes hmem
        · rfl
      rw [if_pos hescaped, List.cons_append, List.cons_append, List.nil_append,
        lex_escaped hword, ih, Option.map_map, hcons]
      rfl
    · rw [if_neg hescaped, List.cons_append, List.nil_append,
        lex_ordinary fun hmem => hescaped (.inl hmem), ih, Option.map_map, hcons]
      rfl

def digit : Atom := .range '0'.toUInt8 '9'.toUInt8

/-- The terms of the form of the time. -/
def timestampTerms : List Term :=
  [.times digit 8, .once (.character '-'.toUInt8), .times digit 6,
    .once (.character '.'.toUInt8), .plus digit]

def timestampTokens : List Token :=
  [.atom digit, .times 8, .atom (.character '-'.toUInt8), .atom digit, .times 6,
    .atom (.character '.'.toUInt8), .atom digit, .plus]

theorem lex_timestampPattern (rest : List Byte) :
    lex .outside (logFilenameTimestampPattern ++ rest) =
      (lex .outside rest).map (timestampTokens ++ ·) := by
  have hpattern : logFilenameTimestampPattern ++ rest =
      '['.toUInt8 :: '0'.toUInt8 :: '-'.toUInt8 :: '9'.toUInt8 :: ']'.toUInt8 ::
      '\x7b'.toUInt8 :: '8'.toUInt8 :: '\x7d'.toUInt8 :: '-'.toUInt8 ::
      '['.toUInt8 :: '0'.toUInt8 :: '-'.toUInt8 :: '9'.toUInt8 :: ']'.toUInt8 ::
      '\x7b'.toUInt8 :: '6'.toUInt8 :: '\x7d'.toUInt8 :: '\\'.toUInt8 :: '.'.toUInt8 ::
      '['.toUInt8 :: '0'.toUInt8 :: '-'.toUInt8 :: '9'.toUInt8 :: ']'.toUInt8 ::
      '+'.toUInt8 :: rest := rfl
  rw [hpattern, lex_range (by decide) (by decide), lex_times (by decide), lex_ordinary (by decide),
    lex_range (by decide) (by decide), lex_times (by decide), lex_escaped (by decide),
    lex_range (by decide) (by decide), lex_plus]
  simp only [Option.map_map]
  rfl

/-- The terms between the base name and the extension. -/
def middleTerms (timestampInLogfileName : Bool) : List Term :=
  if timestampInLogfileName then timestampTerms else []

theorem group_literal_finish (text : List Byte) :
    group (literalTokens text ++ [.finish]) = some (literal text ++ [.finish]) := by
  rw [group_literalTokens_append text fun _ _ => ⟨by simp, by simp⟩]
  rfl

theorem compile_pattern (baseFilename filenameExtension : Name) (timestampInLogfileName : Bool) :
    compile (bytes "^" ++ escapeRegexCharacters baseFilename ++
      (if timestampInLogfileName then logFilenameTimestampPattern else []) ++
      escapeRegexCharacters filenameExtension ++ bytes "$") =
    some (.start :: (literal baseFilename ++ (middleTerms timestampInLogfileName ++
      (literal filenameExtension ++ [.finish])))) := by
  have hstart : ∀ rest, lex .outside (bytes "^" ++ rest) =
      (lex .outside rest).map (.start :: ·) := lex_start
  have hfinish : lex .outside (bytes "$") = some [.finish] := lex_finish []
  have hextension := group_literal_finish filenameExtension
  rw [compile, List.append_assoc, List.append_assoc, List.append_assoc, hstart,
    lex_escapeRegexCharacters]
  cases timestampInLogfileName with
  | false =>
    rw [if_neg (by decide), List.nil_append, lex_escapeRegexCharacters, hfinish]
    simp only [Option.map_some, Option.bind_some]
    rw [group, group_literalTokens_append, hextension]
    · rfl
    · intro count rest
      rcases filenameExtension with _ | ⟨c, filenameExtension⟩ <;>
        constructor <;> exact fun heq => by cases (List.cons.inj heq).1
  | true =>
    rw [if_pos rfl, lex_timestampPattern, lex_escapeRegexCharacters, hfinish]
    simp only [Option.map_some, Option.bind_some]
    rw [group, group_literalTokens_append]
    · have hgroup : group (timestampTokens ++ (literalTokens filenameExtension ++ [.finish])) =
          (group (literalTokens filenameExtension ++ [.finish])).map (timestampTerms ++ ·) := by
        rw [hextension]
        simp [timestampTokens, group, hextension]
        rfl
      rw [hgroup, hextension]
      rfl
    · exact fun count rest => ⟨by simp [timestampTokens], by simp [timestampTokens]⟩

/-- The time in the name of a log file. -/
def IsTimestamp (stamp : List Byte) : Prop :=
  ∃ date time fraction, stamp = date ++ '-'.toUInt8 :: (time ++ '.'.toUInt8 :: fraction) ∧
    date.length = 8 ∧ time.length = 6 ∧ fraction ≠ [] ∧
    ∀ c ∈ date ++ time ++ fraction, isDigit c = true

/-- The name is made of the base name and the extension, with a time between them if there is to be
one. Without a base name there must be none. -/
def IsLogFilename (baseFilename filenameExtension : Name) (timestampInLogfileName : Bool)
    (name : Name) : Prop :=
  ∃ stamp, name = baseFilename ++ stamp ++ filenameExtension ∧
    if timestampInLogfileName then baseFilename ≠ [] ∧ IsTimestamp stamp else stamp = []

theorem matchFrom_once {c : Byte} {terms : List Term} {atStart : Bool} {text : List Byte} :
    matchFrom (.once (.character c) :: terms) atStart text = true ↔
      ∃ rest, text = c :: rest ∧ matchFrom terms false rest = true := by
  have hliteral : matchFrom ([c].map (fun c => .once (.character c)) ++ terms) atStart text = true ↔
      _ := matchFrom_literal_append [c]
  rwa [show (atStart && List.isEmpty [c]) = false from Bool.and_false _] at hliteral

theorem matchFrom_timestampTerms {terms : List Term} {atStart : Bool} {text : List Byte} :
    matchFrom (timestampTerms ++ terms) atStart text = true ↔
      ∃ stamp rest, text = stamp ++ rest ∧ IsTimestamp stamp ∧
      matchFrom terms false rest = true := by
  simp only [timestampTerms, List.cons_append, List.nil_append]
  rw [matchFrom_times]
  constructor
  · rintro ⟨date, rest, rfl, hdate, hdateDigits, hrest⟩
    obtain ⟨rest, rfl, htail⟩ := matchFrom_once.mp hrest
    obtain ⟨time, rest, rfl, htime, htimeDigits, hpoint⟩ := matchFrom_times.mp htail
    obtain ⟨rest, rfl, hlast⟩ := matchFrom_once.mp hpoint
    obtain ⟨fraction, rest, rfl, hfraction, hfractionDigits, hmatch⟩ := matchFrom_plus.mp hlast
    refine ⟨date ++ '-'.toUInt8 :: (time ++ '.'.toUInt8 :: fraction), rest, ?_,
      ⟨date, time, fraction, rfl, hdate, htime, hfraction, ?_⟩, hmatch⟩
    · simp only [List.append_assoc, List.cons_append]
    · intro c hc
      rcases List.mem_append.mp hc with hc | hc
      · rcases List.mem_append.mp hc with hc | hc
        · exact hdateDigits c hc
        · exact htimeDigits c hc
      · exact hfractionDigits c hc
  · rintro ⟨_, rest, rfl, ⟨date, time, fraction, rfl, hdate, htime, hfraction, hdigits⟩, hmatch⟩
    refine ⟨date, '-'.toUInt8 :: (time ++ '.'.toUInt8 :: fraction) ++ rest,
      by rw [List.append_assoc], hdate, fun c hc => hdigits c (by simp [hc]), ?_⟩
    refine matchFrom_once.mpr ⟨_, rfl, matchFrom_times.mpr ⟨time, '.'.toUInt8 :: fraction ++ rest,
      List.append_assoc .., htime, fun c hc => hdigits c (by simp [hc]), ?_⟩⟩
    exact matchFrom_once.mpr ⟨_, rfl, matchFrom_plus.mpr ⟨fraction, rest, rfl, hfraction,
      fun c hc => hdigits c (by simp [hc]), hmatch⟩⟩

theorem compile_neverMatchPattern :
    compile logFilenameNeverMatchPattern = some [.once (.character 'a'.toUInt8), .start] := by
  have hpattern : logFilenameNeverMatchPattern = ['a'.toUInt8, '^'.toUInt8] := rfl
  rw [hpattern, compile, lex_ordinary (by decide), lex_start]
  rfl

/-- The constructor of the regular expression never throws. -/
theorem makeLogFilenameMatcher_ne_none (baseFilename filenameExtension : Name)
    (timestampInLogfileName : Bool) :
    makeLogFilenameMatcher baseFilename filenameExtension timestampInLogfileName ≠ none := by
  rw [makeLogFilenameMatcher]
  split
  · rw [compile_neverMatchPattern]
    exact Option.some_ne_none _
  · rw [compile_pattern]
    exact Option.some_ne_none _

/-- It matches the names that are made of the base name and the extension, whatever characters these
hold, and no others. -/
theorem regexMatch_makeLogFilenameMatcher_iff {baseFilename filenameExtension : Name}
    {timestampInLogfileName : Bool} {pattern : List Term}
    (h : makeLogFilenameMatcher baseFilename filenameExtension timestampInLogfileName =
      some pattern) (name : Name) :
    regexMatch pattern name = true ↔
      IsLogFilename baseFilename filenameExtension timestampInLogfileName name := by
  rw [makeLogFilenameMatcher] at h
  rw [IsLogFilename]
  split at h
  · rename_i hempty
    rw [compile_neverMatchPattern] at h
    obtain rfl := Option.some.inj h
    constructor
    · intro hmatch
      obtain ⟨rest, -, hfalse⟩ := matchFrom_once.mp hmatch
      cases hfalse
    · rintro ⟨stamp, -, hstamp⟩
      rw [if_pos hempty.2] at hstamp
      exact absurd hempty.1 hstamp.1
  · rename_i hempty
    rw [compile_pattern] at h
    obtain rfl := Option.some.inj h
    rw [regexMatch, matchFrom, Bool.true_and, matchFrom_literal_append]
    cases timestampInLogfileName with
    | false =>
      simp only [middleTerms, Bool.false_eq_true, if_false, List.nil_append,
        matchFrom_literal_append, matchFrom_finish]
      constructor
      · rintro ⟨rest, rfl, rest', rfl, rfl⟩
        exact ⟨[], by simp, rfl⟩
      · rintro ⟨stamp, rfl, rfl⟩
        exact ⟨filenameExtension, by simp, [], by simp, rfl⟩
    | true =>
      simp only [middleTerms, if_true, matchFrom_timestampTerms, matchFrom_literal_append,
        matchFrom_finish]
      have hne : baseFilename ≠ [] := fun hnil => hempty ⟨hnil, rfl⟩
      constructor
      · rintro ⟨rest, rfl, stamp, rest', rfl, hstamp, rest'', rfl, rfl⟩
        exact ⟨stamp, by simp, hne, hstamp⟩
      · rintro ⟨stamp, rfl, -, hstamp⟩
        exact ⟨stamp ++ filenameExtension, by simp, stamp, filenameExtension, rfl, hstamp, [],
          by simp, rfl⟩

end Cleaner

end NgLog
