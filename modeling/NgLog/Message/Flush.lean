import NgLog.Message.Prefix

/-!
# Sending a log message

`Flush` ends the text of a message with a newline and a terminator, which it writes behind what has
been streamed, passes parts of the array on, and takes the newline back. Sinks, vectors and strings
receive the text between the prefix and the newline.

If the text ends in a newline already, none is appended. This is meant to be one that has been
streamed; but a prefix that fills the buffer leaves nothing to be streamed, and may end in a newline
of its own. Then the length of the text behind the prefix is computed as one less than zero.

## Main definitions

* `PrefixSource`, `appendPrefix` — the prefix that `Init` writes
* `MessageData`, `flush` — `LogMessage::Flush`
* `Sent` — what is to hold when it sends a message

## Main results

* `terminate_spec` — the text that `Flush` makes, and takes back
* `sent_iff` — when all is well
* `not_sent` — a prefix that fills the buffer and ends in a newline
-/

namespace NgLog

namespace Message

open Style (sizeSub sizeModulus sizeSub_of_le)

/-! ### The prefix -/

/-- The prefix that a message has: `--log_prefix` is off or the line is `kNoLogPrefix`, or there is
no formatter, or what the formatter writes. -/
inductive PrefixSource
  | absent
  | default (values : PrefixValues)
  | custom (writes : List (List Byte))

/-- The part of `Init` that writes the prefix. -/
def appendPrefix (s : LogStream) : PrefixSource → Option LogStream
  | .absent => some s
  | .default values => (appendDefaultPrefix s values).map Prod.fst
  | .custom writes => some ((s.appendAll writes).append (bytes " "))

/-! ### The function -/

/-- The `send_method_` of a message. -/
inductive SendMethod
  | sendToLog
  | sendToSink
  | sendToSinkAndLog
  | sendToSyslogAndLog
  | saveOrSendToLog
  | writeToStringAndLog
  deriving DecidableEq

/-- `LogMessageData`, as far as `Flush` uses it. -/
structure MessageData where
  stream : LogStream
  severity : Severity
  sendMethod : SendMethod
  /-- The pointer of the union, `sink_`, `outvec_` or `message_`, is not null. -/
  pointer : Bool
  numPrefixChars : ℕ
  numCharsToLog : ℕ
  numCharsToSyslog : ℕ
  hasBeenFlushed : Bool

/-- The flags and globals that decide who receives the message. -/
structure Environment where
  minloglevel : Int32
  /-- There are registered sinks. -/
  hasSinks : Bool
  /-- The severity is one of those that are mailed, and logging has been initialized. -/
  sendsEmail : Bool
  /-- A fatal message is the first one, and will end the program. -/
  recordsFatal : Bool

/-- Who receives a part of the array. -/
inductive Destination
  | sink
  | log
  | syslog
  | vector
  | string
  | email
  | registeredSinks
  /-- The copy that is printed again later. -/
  | fatalMessage
  deriving DecidableEq

/-- `severity_` as a number. -/
def Severity.toInt : Severity → ℤ
  | .info => 0
  | .warning => 1
  | .error => 2
  | .fatal => 3

/-- The number of bytes in `fatal_message`. -/
def fatalMessageSize : ℕ := 256

def newline : Byte := 10

namespace LogStream

/-- A byte of the array, if there is one at this index. -/
def byte (s : LogStream) (i : ℕ) : Option Byte := s.messageText[i]?

/-- Assign to a byte of the array. -/
def setByte (s : LogStream) (i : ℕ) (c : Byte) : Option LogStream :=
  if i < bufferSize then
    some { s with
      messageText := s.messageText.set i c
      length_eq := by rw [List.length_set, s.length_eq] }
  else none

/-- The bytes that a pointer into the array and a length stand for, if they are in the array. -/
def range (s : LogStream) (start length : ℕ) : Option (List Byte) :=
  if start + length ≤ bufferSize then some ((s.messageText.drop start).take length) else none

end LogStream

/-- What the first part of `Flush` makes: whether a newline has been appended, the byte that was
there, the stream, and how many bytes there are to log. -/
structure Terminated where
  appendNewline : Bool
  originalFinalChar : Byte
  stream : LogStream
  numCharsToLog : ℕ

/-- `append_newline`. -/
def needsNewline (s : LogStream) : Option Bool :=
  if s.pcount = 0 then some true else (s.byte (s.pcount - 1)).map fun c => decide (c ≠ newline)

/-- The first part of `Flush`: it writes a newline if there is none, and the terminator. -/
def terminate (s : LogStream) : Option Terminated := do
  let numCharsToLog := s.pcount
  let appendNewline ← needsNewline s
  if appendNewline then
    let originalFinalChar ← s.byte numCharsToLog
    let s ← s.setByte numCharsToLog newline
    let s ← s.setByte (numCharsToLog + 1) 0
    some ⟨true, originalFinalChar, s, numCharsToLog + 1⟩
  else
    let s ← s.setByte numCharsToLog 0
    some ⟨false, 0, s, numCharsToLog⟩

/-- The last part of `Flush`: it puts back the byte where the newline is. -/
def restore (t : Terminated) : Option LogStream :=
  if t.appendNewline then t.stream.setByte (t.numCharsToLog - 1) t.originalFinalChar
  else some t.stream

section Requests

variable (env : Environment) (data : MessageData)

/-- `send_to_registered_sinks`. -/
def sendToRegisteredSinks : Bool :=
  match data.sendMethod with
  | .sendToLog | .sendToSinkAndLog | .sendToSyslogAndLog | .writeToStringAndLog => true
  | .saveOrSendToLog => !data.pointer
  | .sendToSink => false

/-- A part of the array that is passed on: for whom, from which index on, and how long it is. -/
abbrev Request : Type := Destination × ℕ × ℕ

/-- The text without the prefix and the newline, as `SendToSink`, `SendToRegisteredSinks`,
`SaveOrSendToLog` and `WriteToStringAndLog` compute it. -/
def messageRequest (destination : Destination) : Request :=
  (destination, data.numPrefixChars, sizeSub (sizeSub data.numCharsToLog data.numPrefixChars) 1)

/-- `SendToLog`, for files or a terminal. -/
def sendToLog : List Request :=
  (.log, 0, data.numCharsToLog) ::
    if data.severity = .fatal ∧ env.recordsFatal then
      [(.fatalMessage, 0, min data.numCharsToLog (fatalMessageSize - 1))]
    else []

/-- The call of `send_method_`, other than `SendToSink`. -/
def callSendMethod : List Request :=
  match data.sendMethod with
  | .sendToSink => []
  | .sendToLog | .sendToSinkAndLog => sendToLog env data
  | .sendToSyslogAndLog =>
    (.syslog, data.numPrefixChars, data.numCharsToSyslog) :: sendToLog env data
  | .saveOrSendToLog => if data.pointer then [messageRequest data .vector] else sendToLog env data
  | .writeToStringAndLog =>
    (if data.pointer then [messageRequest data .string] else []) ++ sendToLog env data

/-- What `Flush` passes on, in order. -/
def requests : List Request :=
  (if (data.sendMethod = .sendToSink ∨ data.sendMethod = .sendToSinkAndLog) ∧ data.pointer then
      [messageRequest data .sink]
    else []) ++
    callSendMethod env data ++
    (if sendToRegisteredSinks data ∧ env.sendsEmail then
      [(.email, 0, data.numCharsToLog)] else []) ++
    if sendToRegisteredSinks data ∧ env.hasSinks then [messageRequest data .registeredSinks] else []

/-- The part of the array that is passed on. -/
def receive (s : LogStream) (r : Request) : Option (Destination × List Byte) :=
  (s.range r.2.1 r.2.2).map fun text => (r.1, text)

/-- `Flush` has something to send. -/
def Sends : Prop := data.hasBeenFlushed = false ∧ env.minloglevel.toInt ≤ data.severity.toInt

instance : Decidable (Sends env data) := inferInstanceAs (Decidable (_ ∧ _))

/-- `LogMessage::Flush`: the message and what has been received, or nothing if the array is accessed
outside of its bounds. -/
def flush : Option (MessageData × List (Destination × List Byte)) :=
  if Sends env data then do
    let numCharsToSyslog := sizeSub data.stream.pcount data.numPrefixChars
    let t ← terminate data.stream
    let data := { data with
      stream := t.stream, numCharsToLog := t.numCharsToLog, numCharsToSyslog := numCharsToSyslog }
    let received ← (requests env data).mapM (receive data.stream)
    let stream ← restore t
    some ({ data with stream := stream, hasBeenFlushed := true }, received)
  else some (data, [])

end Requests

/-! ### The newline and the terminator -/

/-- The text with a newline at its end. -/
def terminated (text : List Byte) : List Byte :=
  if text.getLast? = some newline then text else text ++ [newline]

/-- The text without one newline at its end. -/
def withoutNewline (text : List Byte) : List Byte :=
  if text.getLast? = some newline then text.dropLast else text

theorem LogStream.byte_of_lt {s : LogStream} {i : ℕ} (h : i < s.pcount) :
    s.byte i = s.text[i]? := by
  rw [LogStream.text, List.getElem?_take_of_lt h]
  rfl

theorem LogStream.setByte_of_lt (s : LogStream) {i : ℕ} (h : i < bufferSize) (c : Byte) :
    s.setByte i c = some { s with
      messageText := s.messageText.set i c
      length_eq := by rw [List.length_set, s.length_eq] } := if_pos h

theorem length_terminated_le (s : LogStream) :
    (terminated s.text).length ≤ streamCapacity + 1 := by
  have hpcount := s.pcount_le
  rw [terminated]
  split
  · rw [LogStream.length_text]
    omega
  · rw [List.length_append, LogStream.length_text, List.length_singleton]
    omega

/-- A newline is appended unless the text ends in one. -/
theorem needsNewline_eq (s : LogStream) :
    needsNewline s = some (decide (s.text.getLast? ≠ some newline)) := by
  rw [needsNewline, List.getLast?_eq_getElem?, s.length_text]
  split
  · rename_i hzero
    have hnone : s.text[s.pcount - 1]? = none :=
      List.getElem?_eq_none (by rw [s.length_text]; omega)
    rw [hnone]
    rfl
  · rename_i hpos
    have hlt : s.pcount - 1 < s.text.length := by
      rw [s.length_text]
      omega
    rw [LogStream.byte_of_lt (by omega), List.getElem?_eq_getElem hlt, Option.map_some]
    simp

/-- `Flush` makes the text with a newline at its end, in the array. In the end the array is as it
was, but for the terminator behind this text. -/
theorem terminate_spec (s : LogStream) :
    ∃ t, terminate s = some t ∧ t.numCharsToLog = (terminated s.text).length ∧
      t.stream.messageText.take t.numCharsToLog = terminated s.text ∧
      ∃ s', restore t = some s' ∧ s'.pcount = s.pcount ∧
        s'.messageText = s.messageText.set t.numCharsToLog 0 := by
  have hpcount := s.pcount_le
  have hsize := bufferSize_eq
  have hlength := s.length_eq
  rw [terminate, needsNewline_eq]
  by_cases hnewline : s.text.getLast? = some newline
  · refine ⟨⟨false, 0, { s with
      messageText := s.messageText.set s.pcount 0
      length_eq := by rw [List.length_set, hlength] }, s.pcount⟩, ?_, ?_, ?_, _, rfl, rfl, rfl⟩
    · simp only [hnewline, ne_eq, not_true_eq_false, decide_false, Option.bind_eq_bind,
        Option.bind_some, Bool.false_eq_true, if_false,
        s.setByte_of_lt (show s.pcount < bufferSize by omega)]
    · rw [terminated, if_pos hnewline, s.length_text]
    · rw [terminated, if_pos hnewline]
      dsimp only
      rw [List.take_set_of_le (Nat.le_refl _), LogStream.text]
  · have hlt : s.pcount < s.messageText.length := by omega
    have hbyte : s.byte s.pcount = some s.messageText[s.pcount] := List.getElem?_eq_getElem hlt
    refine ⟨⟨true, s.messageText[s.pcount], { s with
      messageText := (s.messageText.set s.pcount newline).set (s.pcount + 1) 0
      length_eq := by rw [List.length_set, List.length_set, hlength] }, s.pcount + 1⟩, ?_,
      ?_, ?_, { s with
        messageText := s.messageText.set (s.pcount + 1) 0
        length_eq := by rw [List.length_set, hlength] }, ?_, rfl, rfl⟩
    · simp only [hnewline, ne_eq, not_false_eq_true, decide_true, Option.bind_eq_bind,
        Option.bind_some, if_true, hbyte, s.setByte_of_lt (show s.pcount < bufferSize by omega),
        LogStream.setByte_of_lt _ (show s.pcount + 1 < bufferSize by omega)]
    · rw [terminated, if_neg hnewline, List.length_append, s.length_text]
      rfl
    · rw [terminated, if_neg hnewline, LogStream.text]
      dsimp only
      rw [List.take_set_of_le (Nat.le_refl _), List.take_succ_eq_append_getElem (by
        rw [List.length_set]; exact hlt), List.getElem_set_self,
          List.take_set_of_le (Nat.le_refl _)]
    · rw [restore]
      dsimp only
      rw [if_pos rfl, LogStream.setByte_of_lt _ (by omega)]
      congr 2
      dsimp only
      rw [Nat.add_sub_cancel, List.set_comm _ _ (by omega), List.set_set, List.set_getElem_self]

/-! ### What is received -/

/-- The destinations that receive the text without the prefix and the newline. -/
def Destination.ReceivesText : Destination → Prop
  | .sink | .vector | .string | .registeredSinks => True
  | .log | .syslog | .email | .fatalMessage => False

/-- A request is for the text, or for one of a few other parts. -/
theorem requests_cases {env : Environment} {data : MessageData} {r : Request}
    (h : r ∈ requests env data) :
    r = messageRequest data r.1 ∨ ¬r.1.ReceivesText ∧ (r.2 = (0, data.numCharsToLog) ∨
      r.2 = (0, min data.numCharsToLog (fatalMessageSize - 1)) ∨
      r.2 = (data.numPrefixChars, data.numCharsToSyslog)) := by
  have hlog : ∀ r ∈ sendToLog env data, ¬r.1.ReceivesText ∧ (r.2 = (0, data.numCharsToLog) ∨
      r.2 = (0, min data.numCharsToLog (fatalMessageSize - 1)) ∨
      r.2 = (data.numPrefixChars, data.numCharsToSyslog)) := by
    intro r hr
    rw [sendToLog, List.mem_cons] at hr
    rcases hr with rfl | hr
    · exact ⟨id, .inl rfl⟩
    · split at hr
      · cases List.mem_singleton.mp hr
        exact ⟨id, .inr (.inl rfl)⟩
      · cases hr
  have hmethod : ∀ r ∈ callSendMethod env data, r = messageRequest data r.1 ∨
      ¬r.1.ReceivesText ∧ (r.2 = (0, data.numCharsToLog) ∨
        r.2 = (0, min data.numCharsToLog (fatalMessageSize - 1)) ∨
        r.2 = (data.numPrefixChars, data.numCharsToSyslog)) := by
    intro r hr
    rw [callSendMethod] at hr
    cases hcall : data.sendMethod with
    | sendToLog => exact .inr (hlog r (by rwa [hcall] at hr))
    | sendToSink =>
      rw [hcall] at hr
      cases hr
    | sendToSinkAndLog => exact .inr (hlog r (by rwa [hcall] at hr))
    | sendToSyslogAndLog =>
      rw [hcall] at hr
      rcases List.mem_cons.mp hr with rfl | hr
      · exact .inr ⟨id, .inr (.inr rfl)⟩
      · exact .inr (hlog r hr)
    | saveOrSendToLog =>
      rw [hcall] at hr
      dsimp only at hr
      split at hr
      · cases List.mem_singleton.mp hr
        exact .inl rfl
      · exact .inr (hlog r hr)
    | writeToStringAndLog =>
      rw [hcall] at hr
      dsimp only at hr
      rcases List.mem_append.mp hr with hr | hr
      · split at hr
        · cases List.mem_singleton.mp hr
          exact .inl rfl
        · cases hr
      · exact .inr (hlog r hr)
  rw [requests, List.mem_append, List.mem_append, List.mem_append] at h
  rcases h with ((hsink | hmethod') | hemail) | hsinks
  · split at hsink
    · cases List.mem_singleton.mp hsink
      exact .inl rfl
    · cases hsink
  · exact hmethod r hmethod'
  · split at hemail
    · cases List.mem_singleton.mp hemail
      exact .inr ⟨id, .inl rfl⟩
    · cases hemail
  · split at hsinks
    · cases List.mem_singleton.mp hsinks
      exact .inl rfl
    · cases hsinks

/-- A function that is defined for all elements of a list is so for the list. -/
theorem mapM_of_forall {α β : Type} {f : α → Option β} {P : β → Prop} {as : List α}
    (h : ∀ a ∈ as, ∃ b, f a = some b ∧ P b) : ∃ bs, as.mapM f = some bs ∧ ∀ b ∈ bs, P b := by
  induction as with
  | nil => exact ⟨[], rfl, nofun⟩
  | cons a as ih =>
    obtain ⟨b, hb, hP⟩ := h a List.mem_cons_self
    obtain ⟨bs, hbs, hPs⟩ := ih fun a' ha' => h a' (List.mem_cons_of_mem a ha')
    refine ⟨b :: bs, ?_, List.forall_mem_cons.mpr ⟨hP, hPs⟩⟩
    rw [List.mapM_cons, hb, hbs]
    rfl

/-- A part of the text that has been made. -/
theorem range_of_le {s : LogStream} {text : List Byte}
    (htext : s.messageText.take text.length = text) (hsize : text.length ≤ bufferSize)
    {start length : ℕ} (h : start + length ≤ text.length) :
    s.range start length = some ((text.drop start).take length) := by
  rw [LogStream.range, if_pos (by omega)]
  conv_rhs => rw [← htext]
  rw [List.drop_take, List.take_take, Nat.min_eq_left (by omega)]

/-- Between the prefix and the newline, which must not be that of the prefix. -/
theorem take_drop_terminated {text : List Byte} {start : ℕ}
    (h : start + 1 ≤ (terminated text).length) :
    ((terminated text).drop start).take ((terminated text).length - start - 1) =
      withoutNewline (text.drop start) := by
  rw [terminated] at h ⊢
  by_cases hnewline : text.getLast? = some newline
  · rw [if_pos hnewline] at h ⊢
    have hlast : (text.drop start).getLast? = some newline := by
      rw [List.getLast?_drop, if_neg (by omega), hnewline]
    rw [withoutNewline, if_pos hlast, List.dropLast_eq_take, List.length_drop]
  · rw [if_neg hnewline] at h ⊢
    rw [List.length_append, List.length_singleton] at h ⊢
    have hlast : (text.drop start).getLast? ≠ some newline := by
      rw [List.getLast?_drop]
      split
      · exact nofun
      · exact hnewline
    rw [withoutNewline, if_neg hlast, List.drop_append_of_le_length (by omega),
      show text.length + 1 - start - 1 = (text.drop start).length by rw [List.length_drop]; omega,
      List.take_left]

/-! ### All is well -/

/-- The message is sent without an access outside of the array, its newline is not that of the
prefix, every sink, string and vector receives the streamed text without one newline at its end, and
the array is as it was but for the terminator behind the text. -/
def Sent (env : Environment) (data : MessageData) (streamed : List Byte) : Prop :=
  ∃ data' received, flush env data = some (data', received) ∧
    data.numPrefixChars + 1 ≤ data'.numCharsToLog ∧ data'.numCharsToLog ≤ bufferSize - 1 ∧
    (∀ r ∈ received, r.1.ReceivesText → r.2 = withoutNewline streamed) ∧
    data'.stream.text = data.stream.text ∧
    data'.stream.messageText = data.stream.messageText.set data'.numCharsToLog 0

/-- `Flush` counts the text with a newline at its end, and puts the rest back. -/
theorem flush_eq {env : Environment} {data : MessageData} (hsends : Sends env data) :
    ∃ (t : Terminated) (stream : LogStream),
    t.numCharsToLog = (terminated data.stream.text).length ∧
      t.stream.messageText.take t.numCharsToLog = terminated data.stream.text ∧
      stream.text = data.stream.text ∧
      stream.messageText = data.stream.messageText.set t.numCharsToLog 0 ∧
      let data' : MessageData := { data with
        stream := t.stream
        numCharsToLog := t.numCharsToLog
        numCharsToSyslog := sizeSub data.stream.pcount data.numPrefixChars }
      flush env data = ((requests env data').mapM (receive t.stream)).map fun received =>
        ({ data' with stream := stream, hasBeenFlushed := true }, received) := by
  obtain ⟨t, hterminate, hcount, htext, stream, hrestore, hpcount, hmessageText⟩ :=
    terminate_spec data.stream
  refine ⟨t, stream, hcount, htext, ?_, hmessageText, ?_⟩
  · have hle : data.stream.pcount ≤ t.numCharsToLog := by
      rw [hcount, terminated, ← data.stream.length_text]
      split
      · exact Nat.le_refl _
      · rw [List.length_append]
        exact Nat.le_add_right _ _
    rw [LogStream.text, LogStream.text, hpcount, hmessageText, List.take_set_of_le hle]
  · intro data'
    rw [flush, if_pos hsends]
    dsimp only [Option.bind_eq_bind]
    rw [hterminate, Option.bind_some, hrestore]
    cases (requests env data').mapM (receive t.stream) with
    | none => rfl
    | some received => rfl

theorem le_length_terminated (text : List Byte) : text.length ≤ (terminated text).length := by
  rw [terminated]
  split
  · exact Nat.le_refl _
  · rw [List.length_append]
    exact Nat.le_add_right _ _

/-- All requests can be served if the text with its newline is longer than the prefix. -/
theorem receive_of_mem (env : Environment) (data : MessageData) {s : LogStream} {text : List Byte}
    (htext : s.messageText.take (terminated text).length = terminated text)
    (hsize : (terminated text).length ≤ streamCapacity + 1)
    (hcount : data.numCharsToLog = (terminated text).length)
    (hsyslog : data.numCharsToSyslog = text.length - data.numPrefixChars)
    (hfields : data.numPrefixChars ≤ text.length)
    (hlt : data.numPrefixChars + 1 ≤ (terminated text).length) (r : Request)
    (hr : r ∈ requests env data) :
    ∃ b, receive s r = some b ∧
      (b.1.ReceivesText → b.2 = withoutNewline (text.drop data.numPrefixChars)) := by
  have hbuffer := bufferSize_eq
  have hmodulus : streamCapacity + 1 < sizeModulus := by decide
  have hle := le_length_terminated text
  have hrange : ∀ start length, start + length ≤ (terminated text).length →
      s.range start length = some (((terminated text).drop start).take length) :=
    fun start length h => range_of_le htext (by omega) h
  have hlength : sizeSub (sizeSub data.numCharsToLog data.numPrefixChars) 1 =
      (terminated text).length - data.numPrefixChars - 1 := by
    have hfirst : sizeSub (terminated text).length data.numPrefixChars =
        (terminated text).length - data.numPrefixChars := sizeSub_of_le (by omega) (by omega)
    rw [hcount, hfirst]
    exact sizeSub_of_le (by omega) (by omega)
  rw [receive]
  rcases requests_cases hr with htextRequest | ⟨hother, hrequest⟩
  · rw [htextRequest, messageRequest]
    dsimp only
    rw [hlength, hrange _ _ (by omega), Option.map_some, take_drop_terminated hlt]
    exact ⟨_, rfl, fun _ => rfl⟩
  · have hsome : ∃ bytes, s.range r.2.1 r.2.2 = some bytes := by
      rcases hrequest with hall | hfatal | hsyslog'
      · rw [hall, hcount]
        exact ⟨_, hrange _ _ (by dsimp only; omega)⟩
      · rw [hfatal, hcount]
        exact ⟨_, hrange _ _ (by dsimp only; omega)⟩
      · rw [hsyslog', hsyslog]
        exact ⟨_, hrange _ _ (by dsimp only; omega)⟩
    obtain ⟨bytes, hbytes⟩ := hsome
    rw [hbytes]
    exact ⟨_, rfl, fun h => absurd h hother⟩

/-- All is well if the text with its newline is longer than the prefix. -/
theorem sent_of_lt {env : Environment} {data : MessageData} (hsends : Sends env data)
    (hfields : data.numPrefixChars ≤ data.stream.pcount)
    (hlt : data.numPrefixChars + 1 ≤ (terminated data.stream.text).length) :
    Sent env data (data.stream.text.drop data.numPrefixChars) := by
  obtain ⟨t, stream, hcount, htext, hsame, hmessageText, hflush⟩ := flush_eq hsends
  have hle := length_terminated_le data.stream
  have hpcount := data.stream.pcount_le
  have hsize := bufferSize_eq
  have hmodulus : streamCapacity + 1 < sizeModulus := by decide
  have hsyslog : sizeSub data.stream.pcount data.numPrefixChars =
      data.stream.text.length - data.numPrefixChars := by
    rw [data.stream.length_text]
    exact sizeSub_of_le hfields (by omega)
  dsimp only at hflush
  rw [hcount] at htext
  have hserved := receive_of_mem env { data with
      stream := t.stream
      numCharsToLog := t.numCharsToLog
      numCharsToSyslog := sizeSub data.stream.pcount data.numPrefixChars } htext hle hcount hsyslog
    (by rw [data.stream.length_text]; exact hfields) hlt
  obtain ⟨received, hreceived, hall⟩ := mapM_of_forall hserved
  rw [hreceived, Option.map_some] at hflush
  refine ⟨_, received, hflush, ?_, ?_, hall, hsame, hmessageText⟩
  · dsimp only
    omega
  · dsimp only
    omega

/-- The newline that is left out is that of the prefix. -/
theorem not_sent_of_le {env : Environment} {data : MessageData} {streamed : List Byte}
    (hsends : Sends env data) (hle : (terminated data.stream.text).length ≤ data.numPrefixChars) :
    ¬Sent env data streamed := by
  rintro ⟨data', received, hsent, hlt, -⟩
  obtain ⟨t, stream, hcount, -, -, -, hflush⟩ := flush_eq hsends
  dsimp only at hflush
  rw [hsent] at hflush
  obtain ⟨received', -, hpair⟩ := Option.map_eq_some_iff.mp hflush.symm
  have hdata := congrArg (MessageData.numCharsToLog ∘ Prod.fst) hpair
  dsimp only [Function.comp_apply] at hdata
  omega

/-! ### The newline of the prefix -/

/-- The message after `Init`, whose prefix has been written to `s`, and after these writes to its
stream; the first of them may be the stack trace that `Init` writes. -/
def composed (s : LogStream) (writes : List (List Byte)) (severity : Severity)
    (sendMethod : SendMethod) (pointer : Bool) : MessageData where
  stream := s.appendAll writes
  severity := severity
  sendMethod := sendMethod
  pointer := pointer
  numPrefixChars := s.pcount
  numCharsToLog := 0
  numCharsToSyslog := 0
  hasBeenFlushed := false

/-- The prefix fills the stream buffer, and ends in a newline there. -/
def FullWithNewline (s : LogStream) : Prop :=
  s.pcount = streamCapacity ∧ s.text.getLast? = some newline

/-- The text behind the prefix. -/
theorem drop_text_composed (s : LogStream) (writes : List (List Byte)) :
    (s.appendAll writes).text.drop s.pcount = writes.flatten.take (streamCapacity - s.pcount) := by
  have hpcount := s.pcount_le
  rw [LogStream.text_appendAll, List.take_append, s.length_text,
    List.take_of_length_le (by rw [s.length_text]; exact hpcount), ← s.length_text, List.drop_left]

theorem pcount_le_appendAll (s : LogStream) (writes : List (List Byte)) :
    s.pcount ≤ (s.appendAll writes).pcount := by
  have hpcount := s.pcount_le
  rw [← (s.appendAll writes).length_text, LogStream.text_appendAll, List.length_take,
    List.length_append, s.length_text]
  omega

/-- If nothing is streamed, the text is the prefix. -/
theorem text_appendAll_of_pcount_eq {s : LogStream} {writes : List (List Byte)}
    (h : (s.appendAll writes).pcount = s.pcount) : (s.appendAll writes).text = s.text := by
  have hpcount := s.pcount_le
  have htext : (s.appendAll writes).text = s.text ++ (s.appendAll writes).text.drop s.pcount := by
    rw [drop_text_composed, LogStream.text_appendAll, List.take_append, s.length_text,
      List.take_of_length_le (by rw [s.length_text]; exact hpcount)]
  have hend : (s.appendAll writes).text.length ≤ s.pcount := by
    rw [LogStream.length_text]
    exact Nat.le_of_eq h
  rw [htext, List.drop_eq_nil_of_le hend, List.append_nil]

/-- A text that ends in a blank does so unless it is cut. -/
theorem getLast?_take_blank {text : List Byte} {n : ℕ} (h : (text ++ bytes " ").length ≤ n) :
    ((text ++ bytes " ").take n).getLast? ≠ some newline := by
  rw [List.take_of_length_le h]
  have hlast : (text ++ bytes " ").getLast? = some 32 := List.getLast?_concat
  rw [hlast]
  decide

/-- A prefix that does not fill the buffer does not end in a newline: it is empty, or ends in a
blank. -/
theorem getLast?_appendPrefix {buffer : MessageText} {source : PrefixSource} {s : LogStream}
    (h : appendPrefix (LogStream.init buffer) source = some s) (hlt : s.pcount < streamCapacity) :
    s.text.getLast? ≠ some newline := by
  have hinit : (LogStream.init buffer).text = [] := List.take_zero
  have hcut : ∀ text : List Byte, s.text = (text ++ bytes " ").take streamCapacity →
      s.text.getLast? ≠ some newline := by
    intro text htext
    have hlength := congrArg List.length htext
    rw [s.length_text, List.length_take] at hlength
    rw [htext]
    exact getLast?_take_blank (by omega)
  cases source with
  | absent =>
    cases h
    rw [hinit]
    exact nofun
  | default values =>
    obtain ⟨fields, pieces, hpieces, -, hspec⟩ := appendDefaultPrefix_spec values
    obtain ⟨lengths, hprefix, -⟩ := hspec (LogStream.init buffer)
    rw [appendPrefix, hprefix] at h
    cases h
    refine hcut (fields.severity ++ fields.timestamp ++ bytes " " ++ fields.threadid ++ bytes " " ++
      fields.fileline ++ bytes "]") ?_
    rw [LogStream.text_appendAll, hinit, hpieces, PrefixFields.text, List.nil_append,
      show bytes "] " = bytes "]" ++ bytes " " from rfl, List.append_assoc _ (bytes "]")]
  | custom writes =>
    cases h
    refine hcut writes.flatten ?_
    rw [LogStream.text_append, LogStream.text_appendAll, hinit, List.nil_append]
    exact LogStream.take_take_append _ _ _

/-- Behind such a prefix nothing is streamed, and its newline is taken for one that has been. -/
theorem not_sent_of_full {s : LogStream} (h : FullWithNewline s) {writes : List (List Byte)}
    {severity : Severity} {sendMethod : SendMethod} {pointer : Bool} {env : Environment}
    (hsends : Sends env (composed s writes severity sendMethod pointer)) {streamed : List Byte} :
    ¬Sent env (composed s writes severity sendMethod pointer) streamed := by
  obtain ⟨hfull, hnewline⟩ := h
  have hmore := pcount_le_appendAll s writes
  have hcapacity := (s.appendAll writes).pcount_le
  have hlength : (terminated (s.appendAll writes).text).length = s.pcount := by
    rw [text_appendAll_of_pcount_eq (by omega), terminated, if_pos hnewline, s.length_text]
  exact not_sent_of_le hsends (Nat.le_of_eq hlength)

end Message

end NgLog
