import NgLog.Cleaner.Filenames
import NgLog.Flags.Traits

/-!
# The names that log files get

`WriteUnlocked` writes the date, the time and the process id to a stream, and `MakeLogFilename` puts
the text between the base name and the extension. The numbers are padded with zeros, but the stream
has the global locale, which may put separators between groups of their digits. The regular
expression of the log cleaner expects digits alone.

## Main definitions

* `Tm` — the broken-down time
* `streamNumber`, `timePidString`, `makeLogFilename` — the name of a log file

## Main results

* `isTimestamp_timePidString_iff` — the locales under which the text is of the form of the pattern
* `matcher_accepts_made_names_iff` — and those under which the matcher accepts the names that are
  made
-/

namespace NgLog

namespace Cleaner

open Regex FlagValues
open Numeral (numeral)

/-! ### The code -/

/-- `struct tm` for a time from the year 1900 to the year 9999. -/
structure Tm where
  year : ℕ
  mon : ℕ
  mday : ℕ
  hour : ℕ
  min : ℕ
  sec : ℕ
  year_le : year ≤ 8099
  mon_le : mon ≤ 11
  mday_le : mday ≤ 31
  hour_le : hour ≤ 23
  min_le : min ≤ 59
  sec_le : sec ≤ 60

/-- What a stream with the locale writes for a number, after `fill('0')` and `setw(width)`. -/
def streamNumber (locale : NumericPunctuation) (width n : ℕ) : List Byte :=
  let digits := (groupDigits locale.thousandsSep locale.grouping (numeral 10 n).reverse).reverse
  List.replicate (width - digits.length) '0'.toUInt8 ++ digits

/-- `time_pid_string` in `WriteUnlocked`. -/
def timePidString (locale : NumericPunctuation) (tm : Tm) (pid : ℕ) : List Byte :=
  streamNumber locale 0 (1900 + tm.year) ++ streamNumber locale 2 (1 + tm.mon) ++
    streamNumber locale 2 tm.mday ++ '-'.toUInt8 ::
      (streamNumber locale 2 tm.hour ++ streamNumber locale 2 tm.min ++ streamNumber
        locale 2 tm.sec ++
        '.'.toUInt8 :: streamNumber locale 0 pid)

/-- `MakeLogFilename`. -/
def makeLogFilename (baseFilename : Name) (timePid : List Byte) (filenameExtension : Name)
    (timestampInLogfileName : Bool) : Name :=
  baseFilename ++ (if timestampInLogfileName then timePid else []) ++ filenameExtension

/-! ### Groups of digits -/

variable {locale : NumericPunctuation} {width n k : ℕ} {c : Byte}

theorem isDigit_of_isDigit_ten (h : Numeral.isDigit 10 c = true) : isDigit c = true := by
  obtain ⟨hle, hlt⟩ := (Numeral.isDigit_iff (Nat.le_refl 10) c).mp h
  simp only [isDigit, Bool.and_eq_true, decide_eq_true_eq, UInt8.le_iff_toNat_le]
  exact ⟨hle, Nat.le_of_lt_succ hlt⟩

theorem isDigit_of_mem_numeral (h : c ∈ numeral 10 n) : isDigit c = true :=
  isDigit_of_isDigit_ten (Numeral.isDigit_of_mem_numeral (by decide) (by decide) c h)

theorem mem_groupDigits {separator : Byte} {sizes : List ℕ} {digits : List Byte}
    (h : c ∈ groupDigits separator sizes digits) : c ∈ digits ∨ c = separator := by
  induction sizes, digits using groupDigits.induct with
  | case1 digits =>
    rw [groupDigits] at h
    exact Or.inl h
  | case2 size sizes digits hend =>
    rw [groupDigits, if_pos hend] at h
    exact Or.inl h
  | case3 size sizes digits hgroup ih =>
    rw [groupDigits, if_neg hgroup] at h
    rcases List.mem_append.mp h with h | h
    · exact Or.inl (List.mem_of_mem_take h)
    · rcases List.mem_cons.mp h with h | h
      · exact Or.inr h
      · exact (ih h).imp_left List.mem_of_mem_drop

/-- Each separator follows at least one digit. -/
theorem length_groupDigits_le (separator : Byte) (sizes : List ℕ) (digits : List Byte) :
    (groupDigits separator sizes digits).length ≤ 2 * digits.length := by
  induction sizes, digits using groupDigits.induct with
  | case1 digits =>
    rw [groupDigits]
    omega
  | case2 size sizes digits hend =>
    rw [groupDigits, if_pos hend]
    omega
  | case3 size sizes digits hgroup ih =>
    obtain ⟨hsize, hlength⟩ := not_or.mp hgroup
    rw [List.length_drop] at ih
    rw [groupDigits, if_neg hgroup, List.length_append, List.length_take, List.length_cons]
    omega

theorem separator_mem_groupDigits {digits : List Byte} (h : locale.Separates digits.length) :
    locale.thousandsSep ∈ groupDigits locale.thousandsSep locale.grouping digits := by
  obtain ⟨grouping, separator⟩ := locale
  obtain ⟨size, hhead, hsize, hlength⟩ := h
  obtain ⟨sizes, rfl⟩ : ∃ sizes, grouping = size :: sizes :=
    ⟨grouping.tail, List.eq_cons_of_mem_head? hhead⟩
  rw [groupDigits, if_neg (by omega)]
  simp

theorem separates_mono {m : ℕ} (h : locale.Separates k) (hle : k ≤ m) : locale.Separates m := by
  obtain ⟨size, hmem, hsize, hlt⟩ := h
  exact ⟨size, hmem, hsize, hlt.trans_le hle⟩

/-! ### Numbers -/

theorem length_numeral_le (h : n < 10 ^ k) (hk : 0 < k) : (numeral 10 n).length ≤ k := by
  rw [Numeral.numeral]
  split
  · exact hk
  · rw [List.length_reverse, List.length_map]
    exact (Nat.digits_length_le_iff (by decide) n).mpr h

theorem lt_length_numeral (h : 10 ^ k ≤ n) : k < (numeral 10 n).length := by
  have hlt : n < 10 ^ (numeral 10 n).length := Numeral.lt_pow_length_numeral (by decide) n
  exact (Nat.pow_lt_pow_iff_right (by decide)).mp (h.trans_lt hlt)

theorem length_numeral_year {year : ℕ} (h : year ≤ 8099) :
    (numeral 10 (1900 + year)).length = 4 := by
  have hle := length_numeral_le (k := 4) (show 1900 + year < 10 ^ 4 by omega) (by decide)
  have hlt := lt_length_numeral (k := 3) (show 10 ^ 3 ≤ 1900 + year by omega)
  omega

theorem mem_streamNumber (h : c ∈ streamNumber locale width n) :
    isDigit c = true ∨ c = locale.thousandsSep := by
  rcases List.mem_append.mp h with h | h
  · obtain rfl := List.eq_of_mem_replicate h
    exact Or.inl (by decide)
  · rcases mem_groupDigits (List.mem_reverse.mp h) with h | h
    · exact Or.inl (isDigit_of_mem_numeral (List.mem_reverse.mp h))
    · exact Or.inr h

theorem le_length_streamNumber (locale : NumericPunctuation) (width n : ℕ) :
    width ≤ (streamNumber locale width n).length := by
  rw [streamNumber, List.length_append, List.length_replicate]
  omega

theorem streamNumber_ne_nil (locale : NumericPunctuation) (width n : ℕ) :
    streamNumber locale width n ≠ [] := by
  have hle := (groupDigits_spec locale.thousandsSep locale.grouping (numeral 10 n).reverse).1
  have hpos := List.length_pos_of_ne_nil (Numeral.numeral_ne_nil 10 n)
  refine List.ne_nil_of_length_pos ?_
  rw [List.length_reverse] at hle
  rw [streamNumber, List.length_append, List.length_reverse]
  omega

theorem streamNumber_of_not_separates (h : ¬locale.Separates (numeral 10 n).length) :
    streamNumber locale width n =
      List.replicate (width - (numeral 10 n).length) '0'.toUInt8 ++ numeral 10 n := by
  rw [← List.length_reverse] at h
  rw [streamNumber, groupDigits_of_not_separates h, List.reverse_reverse]

/-- Without separators there are only digits. -/
theorem isDigit_of_mem_streamNumber (hseparates : ¬locale.Separates (numeral 10 n).length)
    (h : c ∈ streamNumber locale width n) : isDigit c = true := by
  rw [streamNumber_of_not_separates hseparates] at h
  rcases List.mem_append.mp h with h | h
  · obtain rfl := List.eq_of_mem_replicate h
    decide
  · exact isDigit_of_mem_numeral h

theorem length_streamNumber (hseparates : ¬locale.Separates (numeral 10 n).length)
    (h : (numeral 10 n).length ≤ width) : (streamNumber locale width n).length = width := by
  rw [streamNumber_of_not_separates hseparates, List.length_append, List.length_replicate]
  omega

theorem separator_mem_streamNumber (h : locale.Separates (numeral 10 n).length) :
    locale.thousandsSep ∈ streamNumber locale width n := by
  rw [← List.length_reverse] at h
  exact List.mem_append_right _ (List.mem_reverse.mpr (separator_mem_groupDigits h))

/-- The bytes of the process id are digits unless a separator among them is none. -/
theorem isDigit_streamNumber_iff :
    (∀ c ∈ streamNumber locale width n, isDigit c = true) ↔
      (locale.Separates (numeral 10 n).length → isDigit locale.thousandsSep = true) := by
  constructor
  · intro hdigits hseparates
    exact hdigits _ (separator_mem_streamNumber hseparates)
  · intro hdigit c hc
    by_cases hseparates : locale.Separates (numeral 10 n).length
    · rcases mem_streamNumber hc with hc | rfl
      · exact hc
      · exact hdigit hseparates
    · exact isDigit_of_mem_streamNumber hseparates hc

/-! ### The time -/

/-- A locale that leaves the year alone leaves the numbers of two digits alone. -/
theorem field_of_not_separates (hyear : ¬locale.Separates 4) (hn : n < 100) :
    (streamNumber locale 2 n).length = 2 ∧ ∀ c ∈ streamNumber locale 2 n, isDigit c = true := by
  have hlength := length_numeral_le (k := 2) (show n < 10 ^ 2 by omega) (by decide)
  have hseparates : ¬locale.Separates (numeral 10 n).length := fun h =>
    hyear (separates_mono h (by omega))
  exact ⟨length_streamNumber hseparates hlength, fun c => isDigit_of_mem_streamNumber hseparates⟩

theorem year_of_not_separates (hyear : ¬locale.Separates 4) {year : ℕ} (h : year ≤ 8099) :
    (streamNumber locale 0 (1900 + year)).length = 4 ∧
      ∀ c ∈ streamNumber locale 0 (1900 + year), isDigit c = true := by
  have hlength := length_numeral_year h
  have hseparates : ¬locale.Separates (numeral 10 (1900 + year)).length := by rwa [hlength]
  refine ⟨?_, fun c => isDigit_of_mem_streamNumber hseparates⟩
  rw [streamNumber_of_not_separates hseparates, Nat.zero_sub, List.replicate_zero, List.nil_append,
    hlength]

/-- A separator makes the year longer, up to the eight bytes of the date in the pattern. -/
theorem length_year_of_separates (hyear : locale.Separates 4) {year : ℕ} (h : year ≤ 8099) :
    4 < (streamNumber locale 0 (1900 + year)).length ∧
      (streamNumber locale 0 (1900 + year)).length ≤ 8 := by
  have hlength := length_numeral_year h
  rw [← hlength, ← List.length_reverse] at hyear
  have hlt := lt_length_groupDigits hyear
  have hle := length_groupDigits_le locale.thousandsSep locale.grouping
    (numeral 10 (1900 + year)).reverse
  rw [List.length_reverse, hlength] at hlt hle
  rw [streamNumber, Nat.zero_sub, List.replicate_zero, List.nil_append, List.length_reverse]
  omega

/-- The date of a text of that form is its first eight bytes. -/
theorem isTimestamp_append_iff {date time fraction : List Byte} (hdate : date.length = 8)
    (htime : time.length = 6) (hdigits : ∀ c ∈ date ++ time, isDigit c = true) :
    IsTimestamp (date ++ '-'.toUInt8 :: (time ++ '.'.toUInt8 :: fraction)) ↔
      fraction ≠ [] ∧ ∀ c ∈ fraction, isDigit c = true := by
  constructor
  · rintro ⟨date', time', fraction', heq, hdate', htime', hne, hall⟩
    obtain ⟨rfl, hrest⟩ := List.append_inj heq (by omega)
    obtain ⟨rfl, hlast⟩ := List.append_inj (List.cons.inj hrest).2 (by omega)
    obtain rfl := (List.cons.inj hlast).2
    exact ⟨hne, fun c hc => hall c (List.mem_append_right _ hc)⟩
  · rintro ⟨hne, hall⟩
    refine ⟨date, time, fraction, rfl, hdate, htime, hne, ?_⟩
    intro c hc
    rcases List.mem_append.mp hc with hc | hc
    · exact hdigits c hc
    · exact hall c hc

/-- Nothing longer than eight bytes can stand before the hyphen if its bytes are digits or one
separator, which is among the first eight. -/
theorem not_isTimestamp_of_long {year rest separated : List Byte} {separator : Byte}
    (hlong : 8 < (year ++ rest).length) (hyear : year.length ≤ 8) (hmem : separator ∈ year)
    (hall : ∀ c ∈ year ++ rest, isDigit c = true ∨ c = separator) :
    ¬IsTimestamp (year ++ rest ++ separated) := by
  rintro ⟨date, time, fraction, heq, hdate, htime, hne, hdigits⟩
  have hseparator : isDigit separator = true := by
    obtain ⟨i, hi⟩ := List.getElem?_of_mem hmem
    have hlt : i < year.length := (List.getElem?_eq_some_iff.mp hi).1
    have hget := congrArg (fun text => text[i]?) heq
    simp only [List.append_assoc, List.getElem?_append_left hlt, hi] at hget
    rw [List.getElem?_append_left (by omega)] at hget
    exact hdigits _
      (List.mem_append_left _ (List.mem_append_left _ (List.mem_of_getElem? hget.symm)))
  -- the ninth byte is the hyphen there and a digit here
  have hninth : (year ++ rest)[8]? = some '-'.toUInt8 := by
    have hget := congrArg (fun text => text[8]?) heq
    simp only [List.getElem?_append_left hlong] at hget
    rw [hget, List.getElem?_append_right (by omega), hdate]
    rfl
  rcases hall _ (List.mem_of_getElem? hninth) with h | h
  · exact absurd h (by decide)
  · rw [← h] at hseparator
    exact absurd hseparator (by decide)

/-- **The text is of the form that the pattern expects** just if the locale leaves the year alone,
and the process id too, or has a digit for a separator. -/
theorem isTimestamp_timePidString_iff (locale : NumericPunctuation) (tm : Tm) (pid : ℕ) :
    IsTimestamp (timePidString locale tm pid) ↔
      ¬locale.Separates 4 ∧
        (locale.Separates (numeral 10 pid).length → isDigit locale.thousandsSep = true) := by
  have hmonLt : 1 + tm.mon < 100 := by have h := tm.mon_le; omega
  have hmdayLt : tm.mday < 100 := by have h := tm.mday_le; omega
  have hhourLt : tm.hour < 100 := by have h := tm.hour_le; omega
  have hminLt : tm.min < 100 := by have h := tm.min_le; omega
  have hsecLt : tm.sec < 100 := by have h := tm.sec_le; omega
  by_cases hyear : locale.Separates 4
  · refine iff_of_false ?_ fun h => h.1 hyear
    obtain ⟨hlong, hshort⟩ := length_year_of_separates hyear tm.year_le
    have hmon := le_length_streamNumber locale 2 (1 + tm.mon)
    have hmday := le_length_streamNumber locale 2 tm.mday
    rw [timePidString, List.append_assoc (streamNumber locale 0 (1900 + tm.year))]
    have hseparator : locale.thousandsSep ∈ streamNumber locale 0 (1900 + tm.year) := by
      refine separator_mem_streamNumber ?_
      rwa [length_numeral_year tm.year_le]
    refine not_isTimestamp_of_long ?_ hshort hseparator ?_
    · simp only [List.length_append]
      omega
    · intro c hc
      simp only [List.mem_append] at hc
      rcases hc with hc | hc | hc <;> exact mem_streamNumber hc
  · obtain ⟨hyearLength, hyearDigits⟩ := year_of_not_separates hyear tm.year_le
    obtain ⟨hmonLength, hmonDigits⟩ := field_of_not_separates hyear hmonLt
    obtain ⟨hmdayLength, hmdayDigits⟩ := field_of_not_separates hyear hmdayLt
    obtain ⟨hhourLength, hhourDigits⟩ := field_of_not_separates hyear hhourLt
    obtain ⟨hminLength, hminDigits⟩ := field_of_not_separates hyear hminLt
    obtain ⟨hsecLength, hsecDigits⟩ := field_of_not_separates hyear hsecLt
    have hne := streamNumber_ne_nil locale 0 pid
    rw [timePidString, isTimestamp_append_iff, isDigit_streamNumber_iff]
    · simp [hne, hyear]
    · simp only [List.length_append]
      omega
    · simp only [List.length_append]
      omega
    · intro c hc
      simp only [List.mem_append] at hc
      rcases hc with (((hc | hc) | hc) | (hc | hc) | hc)
      · exact hyearDigits c hc
      · exact hmonDigits c hc
      · exact hmdayDigits c hc
      · exact hhourDigits c hc
      · exact hminDigits c hc
      · exact hsecDigits c hc

/-! ### The matcher -/

/-- **The matcher accepts only names of its form, and it accepts those that are made** just if the
numbers in them are not grouped, or only the process id is and the separator is a digit. -/
theorem matcher_accepts_made_names_iff {baseFilename : Name} (hbase : baseFilename ≠ [])
    (filenameExtension : Name) (timestampInLogfileName : Bool)
    (locale : NumericPunctuation) (tm : Tm) (pid : ℕ) :
    ∃ pattern, makeLogFilenameMatcher baseFilename filenameExtension timestampInLogfileName =
        some pattern ∧
      ((regexMatch pattern (makeLogFilename baseFilename (timePidString locale tm pid)
            filenameExtension timestampInLogfileName) = true ∧
          ∀ name, regexMatch pattern name = true →
            ∃ stamp, name = baseFilename ++ stamp ++ filenameExtension ∧
              if timestampInLogfileName then IsTimestamp stamp else stamp = []) ↔
        (timestampInLogfileName = true →
          ¬locale.Separates 4 ∧
            (locale.Separates (numeral 10 pid).length → isDigit locale.thousandsSep = true))) := by
  obtain ⟨pattern, hpattern⟩ := Option.ne_none_iff_exists'.mp
    (makeLogFilenameMatcher_ne_none baseFilename filenameExtension timestampInLogfileName)
  have hmatch := regexMatch_makeLogFilenameMatcher_iff hpattern
  refine ⟨pattern, hpattern, ?_⟩
  have honly (name : Name) (hname : regexMatch pattern name = true) :
      ∃ stamp, name = baseFilename ++ stamp ++ filenameExtension ∧
        if timestampInLogfileName then IsTimestamp stamp else stamp = [] := by
    obtain ⟨stamp, hname, hstamp⟩ := (hmatch name).mp hname
    refine ⟨stamp, hname, ?_⟩
    cases timestampInLogfileName with
    | true => exact hstamp.2
    | false => exact hstamp
  rw [and_iff_left honly, hmatch, ← isTimestamp_timePidString_iff locale tm pid]
  cases timestampInLogfileName with
  | true =>
    constructor
    · rintro ⟨stamp, hname, _, hstamp⟩ _
      obtain rfl : timePidString locale tm pid = stamp := by
        simpa [makeLogFilename] using hname
      exact hstamp
    · intro hstamp
      exact ⟨timePidString locale tm pid, rfl, hbase, hstamp rfl⟩
  | false =>
    refine iff_of_true ⟨[], ?_, ?_⟩ ?_ <;> simp [makeLogFilename]

/-- October 12 in 2026, at three in the afternoon. -/
def october : Tm where
  year := 126
  mon := 9
  mday := 12
  hour := 15
  min := 0
  sec := 0
  year_le := by decide
  mon_le := by decide
  mday_le := by decide
  hour_le := by decide
  min_le := by decide
  sec_le := by decide

theorem matcher_accepts_made_names_iff_classic :
    ∃ pattern, makeLogFilenameMatcher (bytes "app.") (bytes ".log") true = some pattern ∧
      ((regexMatch pattern (makeLogFilename (bytes "app.") (timePidString .classic october 4354)
            (bytes ".log") true) = true ∧
          ∀ name, regexMatch pattern name = true →
            ∃ stamp, name = bytes "app." ++ stamp ++ bytes ".log" ∧
              if true then IsTimestamp stamp else stamp = []) ↔
        (true = true →
          ¬NumericPunctuation.classic.Separates 4 ∧
            (NumericPunctuation.classic.Separates (numeral 10 4354).length →
              isDigit NumericPunctuation.classic.thousandsSep = true))) :=
  matcher_accepts_made_names_iff (by decide) _ _ _ _ _

/-- Under a locale that groups digits in threes, the matcher does not accept the name that is
made. -/
theorem matcher_rejects_grouped_name :
    ¬∀ (baseFilename filenameExtension : Name) (timestampInLogfileName : Bool)
        (locale : NumericPunctuation) (tm : Tm) (pid : ℕ) (pattern : List Term), baseFilename ≠ [] →
        makeLogFilenameMatcher baseFilename filenameExtension timestampInLogfileName =
          some pattern →
        regexMatch pattern (makeLogFilename baseFilename (timePidString locale tm pid)
          filenameExtension timestampInLogfileName) = true := by
  intro h
  obtain ⟨pattern, hpattern⟩ := Option.ne_none_iff_exists'.mp
    (makeLogFilenameMatcher_ne_none (bytes "app.") (bytes ".log") true)
  have hmade := h _ _ _ ⟨[3], ','.toUInt8⟩ october 4354 pattern (by decide) hpattern
  obtain ⟨stamp, hname, _, hstamp⟩ := (regexMatch_makeLogFilenameMatcher_iff hpattern _).mp hmade
  obtain rfl : timePidString ⟨[3], ','.toUInt8⟩ october 4354 = stamp := by
    simpa [makeLogFilename] using hname
  exact ((isTimestamp_timePidString_iff _ _ _).mp hstamp).1 ⟨3, rfl, by decide, by decide⟩

end Cleaner

end NgLog
