import NgLog.Support.Buffers
import NgLog.Support.Utf16
import NgLog.Unicode.Encoder

/-!
# Wide messages in signal handlers

`std::format_to_n` writes without an allocation only to an array of the characters of its format
string. So a wide message is formatted into an array of wide characters first, and its units are
then encoded behind the prefix. Whatever does not fit is left out: the end of the prefix, the units
if there are too many of them, or the code points from the first one on for which there is no room.

## Main definitions

* `format` — the function, for the text that the wide format string gives
* `messageText` — the text of the message

## Main results

* `append_spec` — one write of the encoder
* `appendUnits_spec` — the loop stops at the first write that does not fit
* `format_spec` — the text in the buffer, and the result
-/

namespace NgLog

namespace SignalSafe

open Utf8 Unicode

/-! ### The code -/

def kSignalSafeWideLength : ℕ := 1024

/-- `kMaxLength`, the greatest `int`. -/
def kMaxLength : ℕ := 2 ^ 31 - 1

/-- The buffer, whose `length` is that of the bytes written, and `fits`. -/
structure Output where
  buffer : Buffer
  fits : Bool

/-- `append`, or nothing if the bytes have been written beyond the array `encoded`. -/
def append (capacity : ℕ) (encoded : List Byte) (out : Output) : Option Output :=
  if encoded.length ≤ kMaximumLength then
    if capacity < out.buffer.written.length + encoded.length then some { out with fits := false }
    else (out.buffer.append encoded).map fun buffer => { out with buffer }
  else none

variable {e : WideEncoding}

/-- The loop over the units. -/
def appendUnits (capacity : ℕ) : List e.Unit → Encoder → Output → Option (Encoder × Output)
  | [], encoder, out => some (encoder, out)
  | unit :: units, encoder, out =>
    if out.fits then
      (append capacity (encoder.put e unit).1 out).bind fun out =>
        appendUnits capacity units (encoder.put e unit).2 out
    else some (encoder, out)

/-- The write of `Finish`. -/
def appendFinish (capacity : ℕ) (encoder : Encoder) (out : Output) : Option Output :=
  if out.fits then append capacity encoder.finish.1 out else some out

/-- `SignalSafeWideMessage::Format` for the text `wide` of the format string: the buffer and the
result, or nothing if it would write beyond an array. -/
def format (messagePrefix : List Byte) (wide : List e.Unit) (buffer : List Byte) :
    Option (List Byte × ℕ) := do
  let size := buffer.length
  let capacity := if size = 0 then size else size - 1
  let length := min messagePrefix.length capacity
  let buffer ← Buffer.append (messagePrefix.take length) ⟨[], buffer⟩
  let fits := length = messagePrefix.length ∧ wide.length ≤ kSignalSafeWideLength
  let (encoder, out) ← appendUnits capacity (wide.take kSignalSafeWideLength) ⟨0⟩ ⟨buffer, fits⟩
  let out ← appendFinish capacity encoder out
  let terminated ← if size ≠ 0 then out.buffer.terminate else some out.buffer
  return (terminated.contents,
    min (if out.fits then out.buffer.written.length else size) kMaxLength)

/-! ### The text -/

/-- The characters of a wide text. -/
def characters (wide : List e.Unit) : List Char := e.decode (wide.map e.value)

/-- The text of the message, if there is room for it. -/
def messageText (messagePrefix : List Byte) (wide : List e.Unit) : List Byte :=
  messagePrefix ++ encode (characters wide)

theorem length_messageText (messagePrefix : List Byte) (wide : List e.Unit) :
    (messageText messagePrefix wide).length = messagePrefix.length +
      (encode (characters wide)).length :=
  List.length_append

/-- Every wide text but the empty one has characters. -/
theorem eq_nil_of_characters_eq_nil {wide : List e.Unit} (h : characters wide = []) :
    wide = [] := by
  cases e with
  | utf16 => exact List.map_eq_nil_iff.mp (decodeUtf16_eq_nil_iff.mp h)
  | utf32 => exact List.map_eq_nil_iff.mp (List.map_eq_nil_iff.mp h)

/-- The buffer of `size` bytes holds a text, and there is room for a terminator. -/
structure Output.Holds (size : ℕ) (text : List Byte) (out : Output) : Prop where
  written_eq : out.buffer.written = text
  length_eq : text.length + out.buffer.rest.length = size
  length_lt : text.length < size

variable {size : ℕ} {text encoded : List Byte} {encoder : Encoder} {out : Output}

/-- A write that fits, and one that does not. -/
theorem append_spec (h : out.Holds size text) (hencoded : encoded.length ≤ kMaximumLength) :
    ∃ next, append (size - 1) encoded out = some next ∧
      if text.length + encoded.length < size then
        next.Holds size (text ++ encoded) ∧ next.fits = out.fits
      else next.Holds size text ∧ next.fits = false := by
  have hlength := h.length_eq
  have hlt := h.length_lt
  rw [append, if_pos hencoded, h.written_eq]
  by_cases hroom : text.length + encoded.length < size
  · simp only [if_pos hroom]
    rw [if_neg (by omega), Buffer.append_run (by omega), Option.map_some]
    refine ⟨_, rfl, ⟨?_, ?_, ?_⟩, rfl⟩
    · rw [Buffer.advance, h.written_eq]
    · rw [Buffer.length_advance, List.length_append]
      omega
    · rwa [List.length_append]
  · simp only [if_neg hroom]
    rw [if_pos (by omega)]
    exact ⟨_, rfl, ⟨h.written_eq, hlength, hlt⟩, rfl⟩

/-- The loop does nothing any more. -/
theorem appendUnits_of_not_fits (capacity : ℕ) (units : List e.Unit) (encoder : Encoder)
    (h : out.fits = false) : appendUnits capacity units encoder out = some (encoder, out) := by
  cases units with
  | nil => rfl
  | cons unit units => rw [appendUnits, if_neg (by simp [h])]

/-- **The loop writes whole characters**: all that are complete, or those before the first write
that does not fit. By induction on the units. -/
theorem appendUnits_spec (units : List e.Unit) (hencoder : encoder.WellFormed e)
    (h : out.Holds size text) (hfits : out.fits = true) :
    ∃ encoder' next done, appendUnits (size - 1) units encoder out = some (encoder', next) ∧
      encoder'.WellFormed e ∧ next.Holds size (text ++ encode done) ∧
      (next.fits = true ∧
          e.decode (encoder.pending ++ units.map e.value) = done ++ e.decode encoder'.pending ∨
        next.fits = false ∧ done <+: e.decode (encoder.pending ++ units.map e.value) ∧
          size ≤ text.length +
            (encode (e.decode (encoder.pending ++ units.map e.value))).length) := by
  induction units generalizing encoder out text with
  | nil =>
    refine ⟨encoder, out, [], rfl, hencoder, ?_, Or.inl ⟨hfits, ?_⟩⟩
    · rwa [encode_nil, List.append_nil]
    · rw [List.map_nil, List.append_nil, List.nil_append]
  | cons unit units ih =>
    obtain ⟨completed, hbytes, hnext, hmeaning, hspace⟩ := Encoder.put_spec hencoder unit
    have hall : e.decode (encoder.pending ++ (unit :: units).map e.value) =
        completed ++ e.decode ((encoder.put e unit).2.pending ++ units.map e.value) := by
      rw [← hmeaning, List.map_cons, List.append_assoc]
      rfl
    obtain ⟨after, happend, hafter⟩ :=
      append_spec h (show (encoder.put e unit).1.length ≤ _ by omega)
    rw [appendUnits, if_pos hfits, happend, Option.bind_some, hall]
    by_cases hroom : text.length + (encoder.put e unit).1.length < size
    · rw [if_pos hroom, hbytes] at hafter
      obtain ⟨encoder', next, done, hrun, hencoder', hholds, hend⟩ :=
        ih hnext hafter.1 (hafter.2.trans hfits)
      refine ⟨encoder', next, completed ++ done, hrun, hencoder', ?_, ?_⟩
      · rwa [encode_append, ← List.append_assoc]
      · rcases hend with ⟨hyes, heq⟩ | ⟨hno, hdone, hsize⟩
        · exact Or.inl ⟨hyes, by rw [heq, List.append_assoc]⟩
        · refine Or.inr ⟨hno, (List.prefix_append_right_inj completed).mpr hdone, ?_⟩
          rw [encode_append, List.length_append]
          rw [List.length_append] at hsize
          omega
    · rw [if_neg hroom] at hafter
      refine ⟨_, after, [], appendUnits_of_not_fits _ _ _ hafter.2, hnext, ?_,
        Or.inr ⟨hafter.2, ?_, ?_⟩⟩
      · rw [encode_nil, List.append_nil]
        exact hafter.1
      · exact List.nil_prefix
      · rw [hbytes] at hroom
        rw [encode_append, List.length_append]
        omega

/-- **The loop and `Finish` write whole characters**: all of them, or those before the first write
that does not fit. -/
theorem appendUnits_finish_spec (units : List e.Unit) (h : out.Holds size text)
    (hfits : out.fits = true) :
    ∃ encoder after next done, appendUnits (size - 1) units ⟨0⟩ out = some (encoder, after) ∧
      appendFinish (size - 1) encoder after = some next ∧
      next.Holds size (text ++ encode done) ∧ done <+: characters units ∧
      if text.length + (encode (characters units)).length < size then
        next.fits = true ∧ done = characters units
      else next.fits = false := by
  obtain ⟨encoder, next, done, hrun, hencoder, hholds, hend⟩ :=
    appendUnits_spec units (Encoder.wellFormed_zero e) h hfits
  rw [Encoder.pending_zero, List.nil_append] at hend
  rcases hend with ⟨hyes, heq⟩ | ⟨hno, hdone, hsize⟩
  · obtain ⟨hbytes, howed⟩ := Encoder.finish_spec hencoder
    have hlength : encoder.finish.1.length ≤ kMaximumLength := by
      rw [howed, Encoder.owed, kMaximumLength]
      split <;> omega
    obtain ⟨last, happend, hlast⟩ := append_spec hholds hlength
    have hall : text.length + (encode (characters units)).length =
        (text ++ encode done).length + encoder.finish.1.length := by
      rw [characters, heq, encode_append, List.length_append, List.length_append, hbytes,
        Nat.add_assoc]
    rw [hall]
    by_cases hroom : (text ++ encode done).length + encoder.finish.1.length < size
    · rw [if_pos hroom] at hlast
      refine ⟨encoder, next, last, characters units,
        hrun, by rw [appendFinish, if_pos hyes, happend], ?_,
        List.prefix_rfl, ?_⟩
      · rw [characters, heq, encode_append, ← hbytes, ← List.append_assoc]
        exact hlast.1
      · rw [if_pos hroom]
        exact ⟨hlast.2.trans hyes, rfl⟩
    · rw [if_neg hroom] at hlast
      refine ⟨encoder, next, last, done, hrun, by rw [appendFinish, if_pos hyes, happend],
        hlast.1, ?_, ?_⟩
      · rw [characters, heq]
        exact List.prefix_append _ _
      · rw [if_neg hroom]
        exact hlast.2
  · have hnot : ¬text.length + (encode (characters units)).length < size := Nat.not_lt.mpr hsize
    refine ⟨encoder, next, next, done, hrun, ?_, hholds, hdone, ?_⟩
    · rw [appendFinish, hno]
      rfl
    · rw [if_neg hnot]
      exact hno

/-- The text gets its terminator. -/
theorem Output.Holds.terminate (h : out.Holds size text) :
    ∃ terminated rest, out.buffer.terminate = some terminated ∧
      terminated.contents = text ++ 0 :: rest ∧ (text ++ 0 :: rest).length = size := by
  have hlength := h.length_eq
  have hlt := h.length_lt
  refine ⟨_, out.buffer.rest.drop 1, Buffer.terminate_run (by omega), ?_, ?_⟩
  · rw [Buffer.contents, h.written_eq]
  · rw [List.length_append, List.length_cons, List.length_drop]
    omega

/-- The prefix, cut to the room before the terminator. -/
theorem append_messagePrefix (messagePrefix : List Byte) {buffer : List Byte}
    (hsize : 1 ≤ buffer.length) (fits : Bool) :
    ∃ after, Buffer.append (messagePrefix.take (min messagePrefix.length (buffer.length - 1)))
        ⟨[], buffer⟩ = some after ∧
      Output.Holds buffer.length (messagePrefix.take (buffer.length - 1)) ⟨after, fits⟩ := by
  have hlength : (messagePrefix.take (buffer.length - 1)).length ≤ buffer.length - 1 :=
    List.length_take_le ..
  rw [take_min, Buffer.append_run (by simp only; omega)]
  refine ⟨_, rfl, rfl, ?_, by omega⟩
  rw [Buffer.length_advance]
  simp only
  omega

/-- **The text in the buffer and the result.** The prefix is cut to the room before the terminator,
and the rest of the message to whole characters. -/
theorem format_spec (messagePrefix : List Byte) (wide : List e.Unit) {buffer : List Byte}
    (hsize : 1 ≤ buffer.length) :
    ∃ text done rest,
      format messagePrefix wide buffer = some (text ++ 0 :: rest,
        min (if text = messageText messagePrefix wide then text.length else buffer.length)
          kMaxLength) ∧
      (text ++ 0 :: rest).length = buffer.length ∧
      text = messagePrefix.take (buffer.length - 1) ++ encode done ∧ done <+: characters wide ∧
      (text = messageText messagePrefix wide ↔
        wide.length ≤ kSignalSafeWideLength ∧
        (messageText messagePrefix wide).length < buffer.length) := by
  have hne : buffer.length ≠ 0 := by omega
  simp only [format, if_neg hne, if_pos hne, Option.bind_eq_bind]
  generalize hfits : decide (min messagePrefix.length (buffer.length - 1) = messagePrefix.length ∧
    wide.length ≤ kSignalSafeWideLength) = fits
  obtain ⟨after, hcopy, hholds⟩ := append_messagePrefix messagePrefix hsize fits
  rw [hcopy, Option.bind_some]
  cases fits with
  | false =>
    -- Something is left out: the end of the prefix, or the units.
    obtain ⟨terminated, rest, hterminate, hcontents, hlength⟩ := hholds.terminate
    rw [appendUnits_of_not_fits _ _ _ rfl, Option.bind_some]
    simp only [appendFinish, Bool.false_eq_true, if_false, Option.bind_some, hterminate, hcontents]
    have hleft :
      ¬(messagePrefix.length ≤ buffer.length - 1 ∧ wide.length ≤ kSignalSafeWideLength) := by
      intro h
      exact of_decide_eq_false hfits ⟨Nat.min_eq_left h.1, h.2⟩
    have hcut : messagePrefix.take (buffer.length - 1) ≠ messageText messagePrefix wide := by
      intro heq
      have hlengths := congrArg List.length heq
      rw [length_messageText, List.length_take] at hlengths
      have hnone : encode (characters wide) = [] := List.length_eq_zero_iff.mp (by omega)
      refine hleft ⟨by omega, ?_⟩
      rw [eq_nil_of_characters_eq_nil (encode_eq_nil_iff.mp hnone)]
      exact Nat.zero_le _
    refine ⟨_, [], rest, ?_, hlength, ?_, List.nil_prefix, ?_⟩
    · rw [if_neg hcut]
      rfl
    · rw [encode_nil, List.append_nil]
    · refine iff_of_false hcut fun h => hleft ⟨?_, h.1⟩
      rw [length_messageText] at h
      omega
  | true =>
    obtain ⟨hshort, hunits⟩ := of_decide_eq_true hfits
    have hwhole : messagePrefix.take (buffer.length - 1) = messagePrefix :=
      List.take_of_length_le (by omega)
    rw [hwhole] at hholds ⊢
    rw [List.take_of_length_le hunits]
    obtain ⟨encoder, last, next, done, hrun, hfinish, hnext, hdone, hroom⟩ :=
      appendUnits_finish_spec wide hholds rfl
    obtain ⟨terminated, rest, hterminate, hcontents, hlength⟩ := hnext.terminate
    rw [hrun, Option.bind_some]
    simp only [hfinish, Option.bind_some, hterminate, hcontents]
    rw [← length_messageText] at hroom
    refine ⟨messagePrefix ++ encode done, done, rest, ?_, hlength, rfl, hdone, ?_⟩ <;>
      by_cases hall : (messageText messagePrefix wide).length < buffer.length
    · rw [if_pos hall] at hroom
      have heq : messagePrefix ++ encode done = messageText messagePrefix wide := by
        rw [hroom.2, messageText]
      rw [if_pos hroom.1, if_pos heq, hnext.written_eq]
      rfl
    · rw [if_neg hall] at hroom
      have hne : messagePrefix ++ encode done ≠ messageText messagePrefix wide := by
        intro heq
        exact hall (heq ▸ hnext.length_lt)
      rw [if_neg hne, hroom]
      rfl
    · rw [if_pos hall] at hroom
      refine iff_of_true ?_ ⟨hunits, hall⟩
      rw [hroom.2, messageText]
    · refine iff_of_false ?_ fun h => hall h.2
      intro heq
      exact hall (heq ▸ hnext.length_lt)

theorem result_le {messagePrefix buffer contents : List Byte} {wide : List e.Unit} {result : ℕ}
    (hsize : 1 ≤ buffer.length) (h : format messagePrefix wide buffer = some (contents, result)) :
    result ≤ kMaxLength := by
  obtain ⟨text, done, rest, hformat, -⟩ := format_spec messagePrefix wide hsize
  rw [hformat, Option.some.injEq, Prod.mk.injEq] at h
  rw [← h.2]
  exact Nat.min_le_right _ _

/-- A prefix of as many bytes as the buffer has does not fit, but the result is less than its
size. -/
theorem format_clamps_size :
    ¬∃ text rest, @format .utf32 (List.replicate (2 ^ 31) 97) [] (List.replicate (2 ^ 31) 0) =
        some (text ++ 0 :: rest, if text = @messageText .utf32 (List.replicate (2 ^ 31) 97) [] then
          text.length else (List.replicate (2 ^ 31) (0 : Byte)).length) ∧
      (text ++ 0 :: rest).length = (List.replicate (2 ^ 31) (0 : Byte)).length := by
  rintro ⟨text, rest, hformat, hlength⟩
  have hne : text ≠ @messageText .utf32 (List.replicate (2 ^ 31) 97) [] := by
    intro heq
    have hle : 2 ^ 31 ≤ text.length := by
      rw [heq, length_messageText, List.length_replicate]
      exact Nat.le_add_right _ _
    rw [List.length_append, List.length_cons, List.length_replicate] at hlength
    omega
  rw [if_neg hne] at hformat
  have hresult := result_le (by rw [List.length_replicate]; decide) hformat
  rw [List.length_replicate] at hresult
  exact absurd hresult (by decide)

end SignalSafe

end NgLog
