import NgLog.Support.Bytes

/-!
# Buffers

A buffer of fixed size that is written from its start on. A write beyond its end has no result, so a
result shows that there is none.

## Main definitions

* `Buffer`, `Buffer.put`, `Buffer.append`, `Buffer.terminate` — the writes
* `Buffer.contents` — the bytes in the end
* `Buffer.advance` — what the writes lead to, while there is room
* `Buffer.Writes` — the functions that write a text

## Main results

* `Buffer.append_run` — a copy
* `Buffer.Writes.bind` — one write after the other
* `append_put_run` — a copy with a terminator behind it
-/

namespace NgLog

/-- The buffer: the bytes before the cursor, and those that have not been written. -/
structure Buffer where
  written : List Byte
  rest : List Byte

namespace Buffer

/-- `*cursor++ = byte`, unless the cursor is at the end. -/
def put (byte : Byte) (buffer : Buffer) : Option Buffer :=
  match buffer.rest with
  | [] => none
  | _ :: rest => some ⟨buffer.written ++ [byte], rest⟩

/-- `std::copy_n`. -/
def append : List Byte → Buffer → Option Buffer
  | [], buffer => some buffer
  | byte :: text, buffer => (buffer.put byte).bind (append text)

/-- `*cursor = '\0'`, unless the cursor is at the end. -/
def terminate (buffer : Buffer) : Option Buffer :=
  match buffer.rest with
  | [] => none
  | _ :: rest => some ⟨buffer.written, 0 :: rest⟩

/-- The bytes of the buffer. -/
def contents (buffer : Buffer) : List Byte := buffer.written ++ buffer.rest

/-- The buffer after some bytes. -/
def advance (text : List Byte) (buffer : Buffer) : Buffer :=
  ⟨buffer.written ++ text, buffer.rest.drop text.length⟩

variable {text : List Byte} {buffer : Buffer}

theorem advance_append (text text' : List Byte) (buffer : Buffer) :
    buffer.advance (text ++ text') = (buffer.advance text).advance text' := by
  rw [advance, advance, advance, List.append_assoc, List.drop_drop, List.length_append]

theorem advance_nil (buffer : Buffer) : buffer.advance [] = buffer := by
  rw [advance, List.append_nil]
  rfl

theorem length_advance (text : List Byte) (buffer : Buffer) :
    (buffer.advance text).rest.length = buffer.rest.length - text.length := by
  rw [advance, List.length_drop]

theorem contents_advance (text out : List Byte) :
    (advance text ⟨[], out⟩).contents = text ++ out.drop text.length := rfl

theorem put_run (h : 0 < buffer.rest.length) (byte : Byte) :
    buffer.put byte = some (buffer.advance [byte]) := by
  obtain ⟨old, rest, hrest⟩ := List.exists_cons_of_length_pos h
  rw [put, advance, hrest]
  rfl

theorem terminate_run (h : 0 < buffer.rest.length) :
    buffer.terminate = some ⟨buffer.written, 0 :: buffer.rest.drop 1⟩ := by
  obtain ⟨old, rest, hrest⟩ := List.exists_cons_of_length_pos h
  simp [terminate, hrest]

/-- A copy of some bytes. -/
theorem append_run (h : text.length ≤ buffer.rest.length) :
    buffer.append text = some (buffer.advance text) := by
  induction text generalizing buffer with
  | nil => rw [append, advance_nil]
  | cons byte text ih =>
    rw [List.length_cons] at h
    rw [append, put_run (by omega), Option.bind_some, ih, ← advance_append, List.singleton_append]
    rw [length_advance, List.length_singleton]
    omega

/-- The function writes a text, while there is room for it. -/
def Writes (f : Buffer → Option Buffer) (text : List Byte) : Prop :=
  ∀ buffer : Buffer, text.length ≤ buffer.rest.length → f buffer = some (buffer.advance text)

theorem writes_nothing : Writes some [] := by
  intro buffer _
  rw [advance_nil]

theorem writes_put (byte : Byte) : Writes (put byte) [byte] := by
  intro buffer h
  rw [List.length_singleton] at h
  exact put_run (by omega) byte

theorem writes_append (text : List Byte) : Writes (append text) text := fun _ h => append_run h

/-- **One write after the other.** -/
theorem Writes.bind {f g : Buffer → Option Buffer} {text' : List Byte} (hf : Writes f text)
    (hg : Writes g text') : Writes (fun buffer => (f buffer).bind g) (text ++ text') := by
  intro buffer h
  rw [List.length_append] at h
  show (f buffer).bind g = _
  rw [hf buffer (by omega), Option.bind_some, hg _ (by rw [length_advance]; omega), advance_append]

/-- Two copies are one. -/
theorem append_append {text' : List Byte} (h : (text ++ text').length ≤ buffer.rest.length) :
    ((buffer.append text).bind fun buffer => buffer.append text') = buffer.append
      (text ++ text') := by
  rw [append_run h]
  exact (writes_append text).bind (writes_append text') buffer h

end Buffer

/-- A copy of a text with a terminator behind it. -/
theorem append_put_run {text out : List Byte} (h : text.length < out.length) :
    ((Buffer.append text ⟨[], out⟩).bind fun buffer =>
        (buffer.put 0).bind fun buffer => some buffer.contents) =
      some (text ++ 0 :: out.drop (text.length + 1)) := by
  rw [Buffer.append_run (Nat.le_of_lt h), Option.bind_some,
    Buffer.put_run (by rw [Buffer.length_advance]; simp only; omega), Option.bind_some,
    ← Buffer.advance_append, Buffer.contents_advance]
  simp

theorem take_min (text : List Byte) (size : ℕ) :
    text.take (min text.length size) = text.take size := by
  rw [Nat.min_comm, ← List.take_eq_take_min]

end NgLog
