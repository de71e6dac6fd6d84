import NgLog.Support.Bytes

/-!
# The stream of a log message

A message is composed in an array of fixed size. The stream buffer over it ignores what does not
fit, and leaves two bytes at its end for a newline and a terminator; the array has one more byte.

## Main definitions

* `LogStream` — the array and how much of it has been written
* `LogStream.append`, `LogStream.appendAll` — writing to the stream

## Main results

* `text_appendAll` — the text is what has been written, cut at the capacity
-/

namespace NgLog

namespace Message

def kMaxLogMessageLen : ℕ := 30000

/-- The size of `message_text_`. -/
def bufferSize : ℕ := kMaxLogMessageLen + 1

/-- How much the stream buffer takes: two bytes less than it is given. -/
def streamCapacity : ℕ := kMaxLogMessageLen - 2

theorem bufferSize_eq : bufferSize = streamCapacity + 3 := rfl

theorem streamCapacity_pos : 0 < streamCapacity := by decide

/-- `LogStream` with its buffer. -/
structure LogStream where
  /-- `message_text_`, which is not initialised. -/
  messageText : List Byte
  /-- How many bytes have been written. -/
  pcount : ℕ
  length_eq : messageText.length = bufferSize
  pcount_le : pcount ≤ streamCapacity

/-- The array as it is before anything has been written. -/
structure MessageText where
  bytes : List Byte
  length_eq : bytes.length = bufferSize

namespace LogStream

/-- A stream that nothing has been written to. -/
def init (messageText : MessageText) : LogStream :=
  ⟨messageText.bytes, 0, messageText.length_eq, Nat.zero_le _⟩

/-- What has been written. -/
def text (s : LogStream) : List Byte := s.messageText.take s.pcount

/-- `LogStreamBuf::append`, and what `operator<<` does with the bytes of its output. -/
def append (s : LogStream) (data : List Byte) : LogStream where
  messageText :=
    let count := min data.length (streamCapacity - s.pcount)
    s.messageText.take s.pcount ++ data.take count ++ s.messageText.drop (s.pcount + count)
  pcount := s.pcount + min data.length (streamCapacity - s.pcount)
  length_eq := by
    have hlength := s.length_eq
    have hpcount := s.pcount_le
    have hsize := bufferSize_eq
    simp only [List.length_append, List.length_take, List.length_drop]
    omega
  pcount_le := by
    have hpcount := s.pcount_le
    omega

/-- Several writes. -/
def appendAll (s : LogStream) (pieces : List (List Byte)) : LogStream := pieces.foldl append s

/-- Cutting early or late is the same. -/
theorem take_take_append {α : Type} (n : ℕ) (x y : List α) :
    ((x.take n) ++ y).take n = (x ++ y).take n := by
  rw [List.take_append, List.take_append, List.length_take, List.take_take, Nat.min_self]
  by_cases h : x.length ≤ n
  · rw [Nat.min_eq_right h]
  · rw [Nat.min_eq_left (by omega), Nat.sub_self, Nat.sub_eq_zero_of_le (by omega)]

variable (s : LogStream)

@[simp] theorem length_text : s.text.length = s.pcount := by
  have hlength := s.length_eq
  have hpcount := s.pcount_le
  have hsize := bufferSize_eq
  rw [text, List.length_take]
  omega

/-- What fits is written behind the text. -/
theorem text_append (data : List Byte) :
    (s.append data).text = (s.text ++ data).take streamCapacity := by
  have hpcount := s.pcount_le
  have hlength := s.length_text
  have hdata : data.take (min data.length (streamCapacity - s.pcount)) =
      data.take (streamCapacity - s.pcount) := by
    rw [Nat.min_comm, ← List.take_take, List.take_length]
  have hcount : s.pcount + min data.length (streamCapacity - s.pcount) =
      (s.text ++ data.take (streamCapacity - s.pcount)).length := by
    rw [List.length_append, hlength, List.length_take, Nat.min_comm]
  have hcut : (s.text ++ data).take streamCapacity =
      s.text ++ data.take (streamCapacity - s.pcount) := by
    rw [List.take_append, hlength, List.take_of_length_le (by omega)]
  rw [hcut, text, append]
  dsimp only
  rw [← text, hdata, hcount, List.take_left]

theorem text_appendAll (pieces : List (List Byte)) :
    (s.appendAll pieces).text = (s.text ++ pieces.flatten).take streamCapacity := by
  induction pieces generalizing s with
  | nil =>
    rw [appendAll, List.foldl_nil, List.flatten_nil, List.append_nil,
      List.take_of_length_le (by rw [length_text]; exact s.pcount_le)]
  | cons data pieces ih =>
    have hnext := ih (s.append data)
    rw [appendAll] at hnext ⊢
    rw [List.foldl_cons, hnext, text_append, List.flatten_cons, ← List.append_assoc]
    exact take_take_append _ _ _

/-- Writing does not lower the count. -/
theorem pcount_le_append (data : List Byte) : s.pcount ≤ (s.append data).pcount :=
  Nat.le_add_right _ _

/-- Where there is room, nothing is cut. -/
theorem text_appendAll_of_le {pieces : List (List Byte)}
    (h : s.pcount + pieces.flatten.length ≤ streamCapacity) :
    (s.appendAll pieces).text = s.text ++ pieces.flatten := by
  rw [text_appendAll, List.take_of_length_le (by rw [List.length_append, length_text]; exact h)]

theorem pcount_appendAll_of_le {pieces : List (List Byte)}
    (h : s.pcount + pieces.flatten.length ≤ streamCapacity) :
    (s.appendAll pieces).pcount = s.pcount + pieces.flatten.length := by
  rw [← length_text, text_appendAll_of_le s h, List.length_append, length_text]

theorem appendAll_append (pieces pieces' : List (List Byte)) :
    s.appendAll (pieces ++ pieces') = (s.appendAll pieces).appendAll pieces' := by
  rw [appendAll, List.foldl_append]
  rfl

end LogStream

end Message

end NgLog
