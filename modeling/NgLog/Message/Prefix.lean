import NgLog.Message.Stream
import NgLog.Style.Storage

/-!
# The default prefix of a log message

`AppendDefaultPrefix` writes the severity, the time, the thread and the place of a message to its
stream, and records how many bytes each of these fields takes. It has only the count of bytes in the
stream to compute this from, by subtracting the fields before and the blanks between them.

## Main definitions

* `prefixNumber` — `AppendPrefixNumber`
* `appendDefaultPrefix` — `AppendDefaultPrefix`
* `PrefixFields` — the fields of a prefix

## Main results

* `appendDefaultPrefix_spec` — what is written, whether or not it fits
* `recordedLengths_prefix` — where it fits, the recorded lengths are those of the fields
-/

namespace NgLog

namespace Message

open Style (sizeSub sizeModulus sizeSub_of_le)

/-! ### Numbers -/

def kPrefixNumberBufferSize : ℕ := 32
def kPrefixYearWidth : ℕ := 4
def kPrefixMonthWidth : ℕ := 2
def kPrefixDayWidth : ℕ := 2
def kPrefixHourWidth : ℕ := 2
def kPrefixMinuteWidth : ℕ := 2
def kPrefixSecondWidth : ℕ := 2
def kPrefixMicrosecondWidth : ℕ := 6
def kPrefixThreadIdWidth : ℕ := 5

/-- The loop of `AppendPrefixNumber`: the digits of a magnitude in front of `digits`. There are
`room` bytes left in `number`. -/
def prefixDigits : (room magnitude : ℕ) → List Byte → Option (List Byte)
  | 0, _, _ => none
  | room + 1, magnitude, digits =>
    let digits := UInt8.ofNat (48 + magnitude % 10) :: digits
    if magnitude / 10 = 0 then some digits else prefixDigits room (magnitude / 10) digits

/-- The text that `AppendPrefixNumber` writes, or nothing if `number` is too small for it. -/
def prefixNumber (value : ℤ) (width : ℕ) : Option (List Byte) := do
  let digits ← prefixDigits kPrefixNumberBufferSize value.natAbs []
  let digits := if value < 0 then 45 :: digits else digits
  let digits := List.replicate (width - digits.length) 48 ++ digits
  if digits.length ≤ kPrefixNumberBufferSize then some digits else none

/-- `AppendPrefixNumber`. -/
def appendPrefixNumber (s : LogStream) (value : ℤ) (width : ℕ) : Option LogStream :=
  (prefixNumber value width).map s.append

theorem prefixDigits_spec (k : ℕ) {room magnitude : ℕ} (hroom : k < room)
    (hmagnitude : magnitude < 10 ^ (k + 1)) (digits : List Byte) :
    ∃ text, prefixDigits room magnitude digits = some text ∧
      text.length ≤ digits.length + (k + 1) := by
  induction k generalizing room magnitude digits with
  | zero =>
    obtain ⟨room, rfl⟩ := Nat.exists_eq_succ_of_ne_zero (Nat.pos_iff_ne_zero.mp hroom)
    exact ⟨_, if_pos (by omega), Nat.le_refl _⟩
  | succ k ih =>
    obtain ⟨room, rfl⟩ := Nat.exists_eq_succ_of_ne_zero (Nat.ne_of_gt (Nat.lt_of_le_of_lt
      (Nat.zero_le _) hroom))
    rw [prefixDigits]
    by_cases hlast : magnitude / 10 = 0
    · refine ⟨_, if_pos hlast, ?_⟩
      rw [List.length_cons]
      omega
    · have hquotient : magnitude / 10 < 10 ^ (k + 1) :=
        Nat.div_lt_of_lt_mul (by rwa [Nat.pow_succ, Nat.mul_comm] at hmagnitude)
      obtain ⟨text, htext, hlength⟩ := ih (Nat.lt_of_succ_lt_succ hroom) hquotient
        (UInt8.ofNat (48 + magnitude % 10) :: digits)
      refine ⟨text, (if_neg hlast).trans htext, ?_⟩
      rw [List.length_cons] at hlength
      omega

/-- A value of 64 bits takes at most 20 bytes. -/
theorem prefixNumber_spec {value : ℤ} {width : ℕ} (hvalue : value.natAbs < 10 ^ 19)
    (hwidth : width ≤ 20) : ∃ text, prefixNumber value width = some text ∧ text.length ≤ 20 := by
  obtain ⟨digits, hdigits, hlength⟩ := prefixDigits_spec 18
    (show 18 < kPrefixNumberBufferSize by decide) hvalue []
  have hsigned : (if value < 0 then 45 :: digits else digits).length ≤ 20 := by
    rw [List.length_nil] at hlength
    split
    · rw [List.length_cons]
      omega
    · omega
  rw [prefixNumber, hdigits]
  dsimp only [Option.bind_eq_bind, Option.bind_some]
  generalize (if value < 0 then 45 :: digits else digits) = digits at hsigned
  have hpadded : (List.replicate (width - digits.length) 48 ++ digits : List Byte).length ≤ 20 := by
    rw [List.length_append, List.length_replicate]
    omega
  exact ⟨_, if_pos (Nat.le_trans hpadded (by decide)), hpadded⟩

theorem appendPrefixNumber_spec {value : ℤ} {width : ℕ} (hvalue : value.natAbs < 10 ^ 19)
    (hwidth : width ≤ 20) :
    ∃ text : List Byte, text.length ≤ 20 ∧
      ∀ s, appendPrefixNumber s value width = some (s.append text) := by
  obtain ⟨text, htext, hlength⟩ := prefixNumber_spec hvalue hwidth
  exact ⟨text, hlength, fun s => by rw [appendPrefixNumber, htext, Option.map_some]⟩

/-! ### The prefix -/

inductive Severity
  | info
  | warning
  | error
  | fatal
  deriving DecidableEq

/-- `LogSeverityNames`. -/
def logSeverityName : Severity → List Byte
  | .info => bytes "INFO"
  | .warning => bytes "WARNING"
  | .error => bytes "ERROR"
  | .fatal => bytes "FATAL"

/-- What `LogMessageTime` gives of a time. -/
structure LogMessageTime where
  year : Int32
  month : Int32
  day : Int32
  hour : Int32
  min : Int32
  sec : Int32
  usec : Int64

/-- What `operator<<` writes for a `std::thread::id`: a number, or a text if there is no thread. -/
structure ThreadId where
  text : List Byte
  length_le : text.length ≤ 1024

/-- `std::setw` of a text. -/
def padLeft (width : ℕ) (text : List Byte) : List Byte :=
  List.replicate (width - text.length) 32 ++ text

/-- What a default prefix is made of, with the value of `FLAGS_log_year_in_prefix`. -/
structure PrefixValues where
  severity : Severity
  time : LogMessageTime
  yearInPrefix : Bool
  threadId : ThreadId
  basename : List Byte
  line : Int32

/-- The recorded lengths of the fields. -/
structure PrefixLengths where
  severityLen : ℕ
  timestampLen : ℕ
  threadidLen : ℕ
  filelineLen : ℕ

/-- The part of `AppendDefaultPrefix` between the severity and the thread. -/
def appendTimestamp (s : LogStream) (time : LogMessageTime) (yearInPrefix : Bool) :
    Option LogStream := do
  let s ← if yearInPrefix then appendPrefixNumber s (1900 + time.year.toInt) kPrefixYearWidth
    else some s
  let s ← appendPrefixNumber s (1 + time.month.toInt) kPrefixMonthWidth
  let s ← appendPrefixNumber s time.day.toInt kPrefixDayWidth
  let s := s.append (bytes " ")
  let s ← appendPrefixNumber s time.hour.toInt kPrefixHourWidth
  let s := s.append (bytes ":")
  let s ← appendPrefixNumber s time.min.toInt kPrefixMinuteWidth
  let s := s.append (bytes ":")
  let s ← appendPrefixNumber s time.sec.toInt kPrefixSecondWidth
  let s := s.append (bytes ".")
  appendPrefixNumber s time.usec.toInt kPrefixMicrosecondWidth

/-- `AppendDefaultPrefix`: the stream and the recorded lengths. -/
def appendDefaultPrefix (s : LogStream) (values : PrefixValues) :
    Option (LogStream × PrefixLengths) := do
  let s := s.append ((logSeverityName values.severity).take 1)
  let severityLen := s.pcount
  let s ← appendTimestamp s values.time values.yearInPrefix
  let timestampLen := sizeSub s.pcount severityLen
  let s := s.append (bytes " ")
  let s := s.append (padLeft kPrefixThreadIdWidth values.threadId.text)
  let threadidLen := sizeSub (sizeSub (sizeSub s.pcount severityLen) timestampLen) 1
  let s := s.append (bytes " ")
  let s := s.append values.basename
  let s := s.append (bytes ":")
  let s ← appendPrefixNumber s values.line.toInt 0
  let filelineLen :=
    sizeSub (sizeSub (sizeSub (sizeSub (sizeSub s.pcount severityLen) timestampLen) 1)
    threadidLen) 1
  let s := s.append (bytes "] ")
  some (s, ⟨severityLen, timestampLen, threadidLen, filelineLen⟩)

/-- The fields of a default prefix. -/
structure PrefixFields where
  severity : List Byte
  timestamp : List Byte
  threadid : List Byte
  fileline : List Byte

/-- The prefix with these fields. -/
def PrefixFields.text (fields : PrefixFields) : List Byte :=
  fields.severity ++ fields.timestamp ++ bytes " " ++ fields.threadid ++ bytes " " ++
    fields.fileline ++ bytes "] "

/-- The lengths of the fields. -/
def PrefixFields.lengths (fields : PrefixFields) : PrefixLengths :=
  ⟨fields.severity.length, fields.timestamp.length, fields.threadid.length, fields.fileline.length⟩

/-! ### What is written -/

theorem natAbs_toInt_lt (value : Int32) : (1900 + value.toInt).natAbs < 10 ^ 19 ∧
    (1 + value.toInt).natAbs < 10 ^ 19 ∧ value.toInt.natAbs < 10 ^ 19 := by
  have hlt := value.toInt_lt
  have hle := value.le_toInt
  omega

/-- The timestamp is written in several pieces, which are not long. -/
theorem appendTimestamp_spec (time : LogMessageTime) (yearInPrefix : Bool) :
    ∃ pieces : List (List Byte), pieces.flatten.length ≤ 200 ∧
      ∀ s, appendTimestamp s time yearInPrefix = some (s.appendAll pieces) := by
  have husec : time.usec.toInt.natAbs < 10 ^ 19 := by
    have hlt := time.usec.toInt_lt
    have hle := time.usec.le_toInt
    omega
  obtain ⟨year, hyearLength, hyear⟩ := appendPrefixNumber_spec (natAbs_toInt_lt time.year).1
    (show kPrefixYearWidth ≤ 20 by decide)
  obtain ⟨month, hmonthLength, hmonth⟩ := appendPrefixNumber_spec (natAbs_toInt_lt time.month).2.1
    (show kPrefixMonthWidth ≤ 20 by decide)
  obtain ⟨day, hdayLength, hday⟩ := appendPrefixNumber_spec (natAbs_toInt_lt time.day).2.2
    (show kPrefixDayWidth ≤ 20 by decide)
  obtain ⟨hour, hhourLength, hhour⟩ := appendPrefixNumber_spec (natAbs_toInt_lt time.hour).2.2
    (show kPrefixHourWidth ≤ 20 by decide)
  obtain ⟨min, hminLength, hmin⟩ := appendPrefixNumber_spec (natAbs_toInt_lt time.min).2.2
    (show kPrefixMinuteWidth ≤ 20 by decide)
  obtain ⟨sec, hsecLength, hsec⟩ := appendPrefixNumber_spec (natAbs_toInt_lt time.sec).2.2
    (show kPrefixSecondWidth ≤ 20 by decide)
  obtain ⟨usec, husecLength, husec⟩ := appendPrefixNumber_spec husec
    (show kPrefixMicrosecondWidth ≤ 20 by decide)
  have hblank : (bytes " ").length = 1 ∧ (bytes ":").length = 1 ∧
      (bytes ".").length = 1 := by decide
  cases yearInPrefix with
  | false =>
    refine ⟨[month, day, bytes " ", hour, bytes ":", min, bytes ":", sec, bytes ".", usec], ?_,
      fun s => ?_⟩
    · simp only [List.flatten_cons, List.flatten_nil, List.length_append, List.length_nil]
      omega
    · simp only [appendTimestamp, hmonth, hday, hhour, hmin, hsec, husec, Bool.false_eq_true,
        if_false, Option.bind_eq_bind, Option.bind_some]
      rfl
  | true =>
    refine ⟨[year, month, day, bytes " ", hour, bytes ":", min, bytes ":", sec,
      bytes ".", usec], ?_,
      fun s => ?_⟩
    · simp only [List.flatten_cons, List.flatten_nil, List.length_append, List.length_nil]
      omega
    · simp only [appendTimestamp, hyear, hmonth, hday, hhour, hmin, hsec, husec, if_true,
        Option.bind_eq_bind, Option.bind_some]
      rfl

/-- The fields of the prefix, for the texts of the numbers. -/
def prefixFields (values : PrefixValues) (stamp : List (List Byte)) (line : List Byte) :
    PrefixFields where
  severity := (logSeverityName values.severity).take 1
  timestamp := stamp.flatten
  threadid := padLeft kPrefixThreadIdWidth values.threadId.text
  fileline := values.basename ++ bytes ":" ++ line

/-- The lengths that are recorded, from the counts of bytes behind each of the fields. -/
def recordedLengths (severityEnd timestampEnd threadidEnd filelineEnd : ℕ) : PrefixLengths :=
  let timestampLen := sizeSub timestampEnd severityEnd
  let threadidLen := sizeSub (sizeSub (sizeSub threadidEnd severityEnd) timestampLen) 1
  ⟨severityEnd, timestampLen, threadidLen,
    sizeSub
      (sizeSub (sizeSub (sizeSub (sizeSub filelineEnd severityEnd) timestampLen) 1) threadidLen)
      1⟩

theorem sizeSub_add {a b : ℕ} (h : a + b < sizeModulus) : sizeSub (a + b) a = b := by
  rw [sizeSub_of_le (Nat.le_add_right a b) h, Nat.add_sub_cancel_left]

/-- The chained differences give the lengths back. -/
theorem recordedLengths_eq {a b c d : ℕ} (h : a + (b + (1 + (c + (1 + d)))) < sizeModulus) :
    recordedLengths a (a + b) (a + (b + (1 + c))) (a + (b + (1 + (c + (1 + d))))) =
      ⟨a, b, c, d⟩ := by
  have hthreadid : sizeSub (sizeSub (sizeSub (a + (b + (1 + c))) a) b) 1 = c := by
    rw [sizeSub_add (by omega), sizeSub_add (by omega), sizeSub_add (by omega)]
  rw [recordedLengths, sizeSub_add (show a + b < sizeModulus by omega), hthreadid, sizeSub_add h,
    sizeSub_add (by omega), sizeSub_add (by omega),
    sizeSub_add (by omega), sizeSub_add (by omega)]

theorem length_padLeft (threadId : ThreadId) :
    (padLeft kPrefixThreadIdWidth threadId.text).length ≤ 1024 := by
  have hlength := threadId.length_le
  have hwidth : kPrefixThreadIdWidth ≤ 1024 := by decide
  rw [padLeft, List.length_append, List.length_replicate]
  omega

section Pieces

variable (values : PrefixValues) (stamp : List (List Byte)) (line : List Byte)

/-- The pieces up to the end of the timestamp, of the thread and of the line. -/
def timestampPieces : List (List Byte) := (logSeverityName values.severity).take 1 :: stamp

def threadidPieces : List (List Byte) :=
  timestampPieces values stamp ++ [bytes " ", padLeft kPrefixThreadIdWidth values.threadId.text]

def filelinePieces : List (List Byte) :=
  threadidPieces values stamp ++ [bytes " ", values.basename, bytes ":", line]

theorem flatten_filelinePieces :
    (filelinePieces values stamp line ++ [bytes "] "]).flatten =
      (prefixFields values stamp line).text := by
  simp only [filelinePieces, threadidPieces, timestampPieces, prefixFields, PrefixFields.text,
    List.flatten_append, List.flatten_cons, List.flatten_nil, List.append_assoc, List.append_nil]

/-- With the texts of the numbers at hand, the prefix is written in pieces. -/
theorem appendDefaultPrefix_eq
    (hstamp : ∀ s, appendTimestamp s values.time values.yearInPrefix = some (s.appendAll stamp))
    (hline : ∀ s, appendPrefixNumber s values.line.toInt 0 = some (s.append line)) (s : LogStream) :
    appendDefaultPrefix s values =
      some (s.appendAll (filelinePieces values stamp line ++ [bytes "] "]),
        recordedLengths (s.append ((logSeverityName values.severity).take 1)).pcount
          (s.appendAll (timestampPieces values stamp)).pcount
          (s.appendAll (threadidPieces values stamp)).pcount
          (s.appendAll (filelinePieces values stamp line)).pcount) := by
  rw [appendDefaultPrefix]
  simp only [hstamp, hline, Option.bind_eq_bind, Option.bind_some]
  rw [filelinePieces, threadidPieces, timestampPieces]
  simp only [LogStream.appendAll_append, List.append_assoc]
  rfl

theorem length_text_prefixFields :
    (prefixFields values stamp line).text.length =
      (logSeverityName values.severity |>.take 1).length + (stamp.flatten.length + (1 +
        ((padLeft kPrefixThreadIdWidth values.threadId.text).length + (1 +
          (values.basename ++ bytes ":" ++ line).length)))) + 2 := by
  have hblank : (bytes " ").length = 1 ∧ (bytes "] ").length = 2 := by decide
  simp only [PrefixFields.text, prefixFields, List.length_append]
  omega

/-- In a stream that is empty and has room, the counts give the lengths of the fields. -/
theorem recordedLengths_prefix {s : LogStream} (hpcount : s.pcount = 0)
    (hfits : (prefixFields values stamp line).text.length ≤ streamCapacity) :
    recordedLengths (s.append ((logSeverityName values.severity).take 1)).pcount
        (s.appendAll (timestampPieces values stamp)).pcount
        (s.appendAll (threadidPieces values stamp)).pcount
        (s.appendAll (filelinePieces values stamp line)).pcount =
      (prefixFields values stamp line).lengths := by
  have hsize : streamCapacity < sizeModulus := by decide
  have hlength := length_text_prefixFields values stamp line
  have hblank : (bytes " ").length = 1 := rfl
  have htimestamp : (timestampPieces values stamp).flatten.length =
      (logSeverityName values.severity |>.take 1).length + stamp.flatten.length := by
    rw [timestampPieces, List.flatten_cons, List.length_append]
  have hthreadid : (threadidPieces values stamp).flatten.length =
      (logSeverityName values.severity |>.take 1).length + (stamp.flatten.length + (1 +
        (padLeft kPrefixThreadIdWidth values.threadId.text).length)) := by
    rw [threadidPieces, List.flatten_append, List.length_append, htimestamp]
    simp only [List.flatten_cons, List.flatten_nil, List.length_append, List.length_nil]
    omega
  have hfileline : (filelinePieces values stamp line).flatten.length =
      (logSeverityName values.severity |>.take 1).length + (stamp.flatten.length + (1 +
        ((padLeft kPrefixThreadIdWidth values.threadId.text).length + (1 +
          (values.basename ++ bytes ":" ++ line).length)))) := by
    rw [filelinePieces, List.flatten_append, List.length_append, hthreadid]
    simp only [List.flatten_cons, List.flatten_nil, List.length_append, List.length_nil]
    omega
  have hcount (pieces : List (List Byte)) (h : pieces.flatten.length ≤ streamCapacity) :
      (s.appendAll pieces).pcount = pieces.flatten.length := by
    rw [s.pcount_appendAll_of_le (by omega), hpcount, Nat.zero_add]
  have hseverity : (s.append ((logSeverityName values.severity).take 1)).pcount =
      ((logSeverityName values.severity).take 1).length := by
    have hone := hcount [(logSeverityName values.severity).take 1] (by
      rw [List.flatten_cons, List.flatten_nil, List.append_nil]
      omega)
    rwa [List.flatten_cons, List.flatten_nil, List.append_nil] at hone
  rw [hseverity, hcount _ (by omega), hcount _ (by omega), hcount _ (by omega), htimestamp,
    hthreadid, hfileline, recordedLengths_eq (by omega)]
  rfl

end Pieces

/-- The prefix is its fields with the blanks between them. Only the base name can be long. Where the
prefix fits, the lengths of the fields are those that are recorded. -/
theorem appendDefaultPrefix_spec (values : PrefixValues) :
    ∃ (fields : PrefixFields) (pieces : List (List Byte)), pieces.flatten = fields.text ∧
      fields.text.length ≤ values.basename.length + 1300 ∧
      ∀ s : LogStream, ∃ lengths, appendDefaultPrefix s values = some
        (s.appendAll pieces, lengths) ∧
        (s.pcount = 0 → fields.text.length ≤ streamCapacity → lengths = fields.lengths) := by
  obtain ⟨stamp, hstampLength, hstamp⟩ := appendTimestamp_spec values.time values.yearInPrefix
  obtain ⟨line, hlineLength, hline⟩ := appendPrefixNumber_spec (natAbs_toInt_lt values.line).2.2
    (show 0 ≤ 20 by decide)
  refine ⟨prefixFields values stamp line, filelinePieces values stamp line ++ [bytes "] "],
    flatten_filelinePieces values stamp line, ?_, fun s =>
      ⟨_, appendDefaultPrefix_eq values stamp line
      hstamp hline s, fun hpcount hfits => ?_⟩⟩
  · have hseverity : ((logSeverityName values.severity).take 1).length ≤ 1 := by
      rw [List.length_take]
      omega
    have hthreadid := length_padLeft values.threadId
    have hcolon : (bytes ":").length = 1 := rfl
    rw [length_text_prefixFields, List.length_append, List.length_append]
    omega
  · exact recordedLengths_prefix values stamp line hpcount hfits

end Message

end NgLog
