import NgLog.Unicode.Encoder

/-!
# Writing wide text as UTF-8

`WriteWideAsUtf8` encodes a wide text into a buffer of a fixed size, which it passes to a writer
before the encoder could overflow it. It checks the space once for a unit. A high surrogate that is
kept then claims part of the space of its own unit for the bytes that `Finish` may write without a
check. So the invariant of the loop counts the bytes that the encoder owes as used.

## Main definitions

* `store` — writing into the buffer, undefined past its end
* `writeWideAsUtf8` — the function, for a writer that may fail at any chunk
* `Progress`, `Outcome` — what has been written so far, and at the end

## Main results

* `reserve_spec`, `putUnits_spec` — the loop keeps the invariant or ends with the chunk that failed
* `writeWideAsUtf8_chunks` — the chunks that the writer is passed
-/

namespace NgLog

namespace Utf8

open Unicode

/-- `kMaximumUtf8ChunkLength`. -/
def kMaximumUtf8ChunkLength : ℕ := 1024

/-- Writing bytes into an array from an index on; `none` if one lies past the end. -/
def store {n : ℕ} (buffer : Vector Byte n) (index : ℕ) : List Byte → Option (Vector Byte n)
  | [] => some buffer
  | byte :: output =>
    if h : index < n then store (buffer.set index byte h) (index + 1) output else none

/-- A `Utf8WriteFunction`: whether it accepts a chunk, after the chunks it has been passed. -/
abbrev Writer : Type := List (List Byte) → List Byte → Bool

/-- The text to write: a null pointer with any length, or a pointer to as many units. -/
inductive WideText (e : WideEncoding)
  | null (length : ℕ)
  | units (units : List e.Unit)

/-- The local variables of `WriteWideAsUtf8`, and the chunks that the writer has been passed. -/
structure Output where
  buffer : Vector Byte kMaximumUtf8ChunkLength
  length : ℕ
  chunks : List (List Byte)

/-- The bytes of the buffer that have been written. -/
def Output.chunk (out : Output) : List Byte := out.buffer.toList.take out.length

/-- Passes the bytes in the buffer to the writer. -/
def Output.flush (writer : Writer) (out : Output) : Bool × Output :=
  (writer out.chunks out.chunk, { out with chunks := out.chunks ++ [out.chunk] })

/-- `reserve`. -/
def Output.reserve (writer : Writer) (out : Output) : Bool × Output :=
  if kMaximumUtf8ChunkLength - out.length < kMaximumLength then
    match out.flush writer with
    | (true, out) => (true, { out with length := 0 })
    | (false, out) => (false, out)
  else (true, out)

/-- `length += ...`, for the bytes that the encoder writes to `buffer.data() + length`. -/
def Output.append (out : Output) (output : List Byte) : Option Output :=
  (store out.buffer out.length output).map fun buffer =>
    { out with buffer, length := out.length + output.length }

/-- The loop of `WriteWideAsUtf8`. -/
def putUnits {e : WideEncoding} (writer : Writer) (out : Output) (encoder : Encoder) :
    List e.Unit → Option (Bool × Output × Encoder)
  | [] => some (true, out, encoder)
  | unit :: units =>
    match out.reserve writer with
    | (false, out) => some (false, out, encoder)
    | (true, out) =>
      match out.append (encoder.put e unit).1 with
      | none => none
      | some out => putUnits writer out (encoder.put e unit).2 units

/-- `WriteWideAsUtf8` after the check of its arguments: the result, and the chunks that the writer
has been passed. -/
def writeUnits {e : WideEncoding} (buffer : Vector Byte kMaximumUtf8ChunkLength) (writer : Writer)
    (units : List e.Unit) : Option (Bool × List (List Byte)) :=
  match putUnits writer ⟨buffer, 0, []⟩ ⟨0⟩ units with
  | none => none
  | some (false, out, _) => some (false, out.chunks)
  | some (true, out, encoder) =>
    match out.append encoder.finish.1 with
    | none => none
    | some out =>
      if out.length = 0 then some (true, out.chunks)
      else some ((out.flush writer).1, (out.flush writer).2.chunks)

/-- `WriteWideAsUtf8`. The buffer is not initialized. -/
def writeWideAsUtf8 {e : WideEncoding} (buffer : Vector Byte kMaximumUtf8ChunkLength)
    (input : WideText e) (writer : Option Writer) : Option (Bool × List (List Byte)) :=
  match input, writer with
  | .null (_ + 1), _ => some (false, [])
  | _, none => some (false, [])
  | .null 0, some writer => writeUnits (e := e) buffer writer []
  | .units units, some writer => writeUnits buffer writer units

/-! ### The buffer -/

theorem store_eq_some {n : ℕ} {output : List Byte} (buffer : Vector Byte n) (index : ℕ)
    (h : index + output.length ≤ n) :
    ∃ buffer', store buffer index output = some buffer' ∧
      buffer'.toList.take (index + output.length) = buffer.toList.take index ++ output := by
  induction output generalizing buffer index with
  | nil => exact ⟨buffer, rfl, by simp⟩
  | cons byte output ih =>
    have hindex : index < n := by
      rw [List.length_cons] at h
      omega
    obtain ⟨buffer', hstore, htake⟩ := ih (buffer.set index byte hindex) (index + 1) (by
      rw [List.length_cons] at h
      omega)
    refine ⟨buffer', by rw [store, dif_pos hindex, hstore], ?_⟩
    rw [List.length_cons, Nat.add_comm output.length 1, ← Nat.add_assoc, htake,
      List.take_add_one, Vector.toList_set, List.take_set_of_le (Nat.le_refl index)]
    simp [hindex]

/-- The encoder's bytes fit into the buffer, after those that are there. -/
theorem append_eq_some {out : Output} {output : List Byte}
    (h : out.length + output.length ≤ kMaximumUtf8ChunkLength) :
    ∃ out', out.append output = some out' ∧ out'.chunk = out.chunk ++ output ∧
      out'.length = out.length + output.length ∧ out'.chunks = out.chunks := by
  obtain ⟨buffer', hstore, htake⟩ := store_eq_some out.buffer out.length h
  refine ⟨⟨buffer', out.length + output.length, out.chunks⟩, ?_, htake, rfl, rfl⟩
  rw [Output.append, hstore, Option.map_some]

/-! ### The writer -/

/-- The writer has accepted each chunk. -/
def Accepted (writer : Writer) (chunks : List (List Byte)) : Prop :=
  ∀ earlier chunk later, chunks = earlier ++ chunk :: later → writer earlier chunk = true

theorem append_cons_eq_concat {α : Type} {earlier later init : List α} {a last : α}
    (h : init ++ [last] = earlier ++ a :: later) :
    (later = [] ∧ earlier = init ∧ a = last) ∨
      ∃ later', later = later' ++ [last] ∧ init = earlier ++ a :: later' := by
  rcases later.eq_nil_or_concat with rfl | ⟨later', b, rfl⟩
  · obtain ⟨rfl, hlast⟩ := List.append_inj' h rfl
    exact .inl ⟨rfl, rfl, (List.cons.inj hlast).1.symm⟩
  · rw [List.concat_eq_append, ← List.cons_append, ← List.append_assoc] at h
    obtain ⟨hinit, hlast⟩ := List.append_inj' h rfl
    exact .inr ⟨later', by rw [List.concat_eq_append, (List.cons.inj hlast).1], hinit⟩

theorem accepted_nil (writer : Writer) : Accepted writer [] := by
  intro earlier chunk later h
  simp at h

theorem accepted_concat {writer : Writer} {chunks : List (List Byte)} {chunk : List Byte}
    (h : Accepted writer chunks) (hchunk : writer chunks chunk = true) :
    Accepted writer (chunks ++ [chunk]) := by
  intro earlier other later heq
  obtain ⟨-, rfl, rfl⟩ | ⟨later', -, heq⟩ := append_cons_eq_concat heq
  · exact hchunk
  · exact h earlier other later' heq

/-! ### The text that has been written -/

/-- Before the end of the text: the writer has accepted the pieces, the buffer holds the current
one, and the characters that remain complete the text. -/
structure Progress (writer : Writer) (text : List Char) (pieces : List (List Char))
    (current remaining : List Char) (out : Output) : Prop where
  chunks : out.chunks = pieces.map encode
  bounded : ∀ piece ∈ pieces, encode piece ≠ [] ∧ (encode piece).length ≤ kMaximumUtf8ChunkLength
  accepted : Accepted writer out.chunks
  chunk : out.chunk = encode current
  length : out.length = (encode current).length
  text : pieces.flatten ++ current ++ remaining = text

/-- At the end: every piece has been accepted and together they are the text, or the last one has
been rejected. -/
structure Outcome (writer : Writer) (text : List Char) (pieces : List (List Char))
    (result : Bool × List (List Byte)) : Prop where
  chunks : result.2 = pieces.map encode
  bounded : ∀ piece ∈ pieces, encode piece ≠ [] ∧ (encode piece).length ≤ kMaximumUtf8ChunkLength
  isPrefix : pieces.flatten <+: text
  complete : result.1 = true → pieces.flatten = text ∧ Accepted writer result.2
  rejected : result.1 = false → ∃ earlier chunk, result.2 = earlier ++ [chunk] ∧
    Accepted writer earlier ∧ writer earlier chunk = false

section Writing

variable {writer : Writer} {text current remaining : List Char} {pieces : List (List Char)}
  {out : Output}

/-- What the writer is passed is bounded. -/
theorem Progress.bounded_flush (h : Progress writer text pieces current remaining out)
    (hle : out.length ≤ kMaximumUtf8ChunkLength) (hne : out.length ≠ 0) :
    ∀ piece ∈ pieces ++ [current],
      encode piece ≠ [] ∧ (encode piece).length ≤ kMaximumUtf8ChunkLength := by
  intro piece hpiece
  rcases List.mem_append.mp hpiece with hpiece | hpiece
  · exact h.bounded piece hpiece
  · rw [List.mem_singleton.mp hpiece, ← h.length, Ne, ← List.length_eq_zero_iff, ← h.length]
    exact ⟨hne, hle⟩

theorem Progress.chunks_flush (h : Progress writer text pieces current remaining out) :
    (out.flush writer).2.chunks = (pieces ++ [current]).map encode := by
  rw [Output.flush, List.map_append, List.map_singleton, h.chunk, h.chunks]

/-- A chunk that the writer accepts. -/
theorem Progress.flush_accepted (h : Progress writer text pieces current remaining out)
    (hle : out.length ≤ kMaximumUtf8ChunkLength) (hne : out.length ≠ 0)
    (haccepted : (out.flush writer).1 = true) :
    Progress writer text (pieces ++ [current]) [] remaining
      { (out.flush writer).2 with length := 0 } where
  chunks := h.chunks_flush
  bounded := h.bounded_flush hle hne
  accepted := accepted_concat h.accepted haccepted
  chunk := List.take_zero
  length := rfl
  text := by
    rw [List.flatten_append, List.flatten_singleton, List.append_nil]
    exact h.text

/-- A chunk that the writer rejects. -/
theorem Progress.flush_rejected (h : Progress writer text pieces current remaining out)
    (hle : out.length ≤ kMaximumUtf8ChunkLength) (hne : out.length ≠ 0)
    (hrejected : (out.flush writer).1 = false) :
    Outcome writer text (pieces ++ [current]) (false, (out.flush writer).2.chunks) where
  chunks := h.chunks_flush
  bounded := h.bounded_flush hle hne
  isPrefix := ⟨remaining, by
    rw [List.flatten_append, List.flatten_singleton]
    exact h.text⟩
  complete := by simp
  rejected _ := ⟨out.chunks, out.chunk, rfl, h.accepted, hrejected⟩

/-- After `reserve` there is room for the bytes of one call of the encoder. -/
theorem reserve_spec (h : Progress writer text pieces current remaining out)
    (hle : out.length ≤ kMaximumUtf8ChunkLength) :
    (∃ pieces current out', out.reserve writer = (true, out') ∧
      Progress writer text pieces current remaining out' ∧
      out'.length + kMaximumLength ≤ kMaximumUtf8ChunkLength) ∨
    ∃ pieces out', out.reserve writer = (false, out') ∧
      Outcome writer text pieces (false, out'.chunks) := by
  have hlarge : kMaximumLength < kMaximumUtf8ChunkLength := by decide
  by_cases hfull : kMaximumUtf8ChunkLength - out.length < kMaximumLength
  · have hne : out.length ≠ 0 := by omega
    rw [Output.reserve, if_pos hfull]
    rcases hwriter : out.flush writer with ⟨accepted, out'⟩
    cases accepted with
    | true =>
      have hflush := h.flush_accepted hle hne (congrArg Prod.fst hwriter)
      rw [hwriter] at hflush
      exact .inl ⟨_, _, _, rfl, hflush, by rw [Nat.zero_add]; exact Nat.le_of_lt hlarge⟩
    | false =>
      have hflush := h.flush_rejected hle hne (congrArg Prod.fst hwriter)
      rw [hwriter] at hflush
      exact .inr ⟨_, _, rfl, hflush⟩
  · rw [Output.reserve, if_neg hfull]
    exact .inl ⟨_, _, _, rfl, h, by omega⟩

/-- The encoder's bytes are appended to the current piece. -/
theorem Progress.append {completed rest : List Char} {output : List Byte}
    (h : Progress writer text pieces current remaining out) (hbytes : output = encode completed)
    (hremaining : remaining = completed ++ rest)
    (hspace : out.length + output.length ≤ kMaximumUtf8ChunkLength) :
    ∃ out', out.append output = some out' ∧ out'.length = out.length + output.length ∧
      Progress writer text pieces (current ++ completed) rest out' := by
  obtain ⟨out', happend, hchunk, hlength, hchunks⟩ := append_eq_some hspace
  refine ⟨out', happend, hlength, hchunks ▸ h.chunks, h.bounded, hchunks ▸ h.accepted, ?_, ?_, ?_⟩
  · rw [hchunk, h.chunk, hbytes, encode_append]
  · rw [hlength, h.length, hbytes, encode_append, List.length_append]
  · rw [← h.text, hremaining]
    simp only [List.append_assoc]

/-- The loop, by induction on the units that are left. The bytes in the buffer and those that the
encoder owes fit into it. -/
theorem putUnits_spec {e : WideEncoding} (units : List e.Unit) {encoder : Encoder}
    {pieces : List (List Char)} {current : List Char} {out : Output}
    (h : Progress writer text pieces current (e.decode (encoder.pending ++ units.map e.value)) out)
    (hencoder : encoder.WellFormed e)
    (hspace : out.length + encoder.owed ≤ kMaximumUtf8ChunkLength) :
    (∃ pieces current out' encoder',
      putUnits writer out encoder units = some (true, out', encoder') ∧
      Progress writer text pieces current (e.decode encoder'.pending) out' ∧
      encoder'.WellFormed e ∧ out'.length + encoder'.owed ≤ kMaximumUtf8ChunkLength) ∨
    ∃ pieces out' encoder', putUnits writer out encoder units = some (false, out', encoder') ∧
      Outcome writer text pieces (false, out'.chunks) := by
  induction units generalizing encoder pieces current out with
  | nil =>
    rw [List.map_nil, List.append_nil] at h
    exact .inl ⟨pieces, current, out, encoder, rfl, h, hencoder, hspace⟩
  | cons unit units ih =>
    rw [putUnits]
    obtain ⟨pieces, current, out₁, hreserve, h, hroom⟩ | ⟨pieces, out₁, hreserve, houtcome⟩ :=
      reserve_spec h (Nat.le_trans (Nat.le_add_right ..) hspace)
    · obtain ⟨completed, hcompletes⟩ := Encoder.put_spec hencoder unit
      have hmeaning := hcompletes.meaning (units.map e.value)
      rw [List.append_assoc] at hmeaning
      have hlimit := hcompletes.space
      obtain ⟨out₂, happend, hlength, h⟩ := h.append hcompletes.bytes hmeaning (by omega)
      rw [hreserve]
      dsimp only
      rw [happend]
      exact ih h hcompletes.wellFormed (by omega)
    · rw [hreserve]
      exact .inr ⟨pieces, out₁, encoder, rfl, houtcome⟩

/-- The function after the check of its arguments. -/
theorem writeUnits_spec {e : WideEncoding} (buffer : Vector Byte kMaximumUtf8ChunkLength)
    (writer : Writer) (units : List e.Unit) :
    ∃ pieces result, writeUnits buffer writer units = some result ∧
      Outcome writer (e.decode (units.map e.value)) pieces result := by
  have hinit : Progress writer (e.decode (units.map e.value)) [] []
      (e.decode ((⟨0⟩ : Encoder).pending ++ units.map e.value)) ⟨buffer, 0, []⟩ :=
    ⟨rfl, by simp, accepted_nil writer, List.take_zero, rfl, rfl⟩
  rw [writeUnits]
  obtain ⟨pieces, current, out, encoder, hloop, h, hencoder, hspace⟩ |
      ⟨pieces, out, encoder, hloop, houtcome⟩ :=
    putUnits_spec units hinit (Encoder.wellFormed_zero e) (Nat.zero_le _)
  · obtain ⟨hbytes, howed⟩ := Encoder.finish_spec hencoder
    have hremaining : e.decode encoder.pending = e.decode encoder.pending ++ [] :=
      (List.append_nil _).symm
    obtain ⟨out', happend, hlength, h⟩ := h.append hbytes hremaining (by omega)
    have htext := h.text
    rw [List.append_nil] at htext
    rw [hloop]
    dsimp only
    rw [happend]
    by_cases hzero : out'.length = 0
    · dsimp only
      rw [if_pos hzero]
      have hnil : current ++ e.decode encoder.pending = [] :=
        encode_eq_nil_iff.mp (List.length_eq_zero_iff.mp (h.length ▸ hzero))
      rw [hnil, List.append_nil] at htext
      exact ⟨pieces, _, rfl, h.chunks, h.bounded, htext ▸ List.prefix_refl _,
        fun _ => ⟨htext, h.accepted⟩, by simp⟩
    · dsimp only
      rw [if_neg hzero]
      cases haccepted : (out'.flush writer).1 with
      | true =>
        have hflush := h.flush_accepted (by omega) hzero haccepted
        refine ⟨_, _, rfl, hflush.chunks, hflush.bounded, ?_, fun _ => ⟨?_, hflush.accepted⟩,
          by simp⟩
        · rw [List.flatten_append, List.flatten_singleton]
          exact htext ▸ List.prefix_refl _
        · rw [List.flatten_append, List.flatten_singleton]
          exact htext
      | false => exact ⟨_, _, rfl, h.flush_rejected (by omega) hzero haccepted⟩
  · rw [hloop]
    exact ⟨pieces, _, rfl, houtcome⟩

end Writing

/-- For every text, every writer and whatever the buffer held: no byte is stored past the end of the
buffer. Each chunk is the encoding of some characters, not empty and not too long. Together the
chunks are the encoding of a prefix of the text, and of the text if the writer accepts all of them.
After a chunk that the writer rejects there is no other. -/
theorem writeWideAsUtf8_chunks (e : WideEncoding) (buffer : Vector Byte kMaximumUtf8ChunkLength)
    (units : List e.Unit) (writer : Writer) :
    ∃ accepted chunks,
      writeWideAsUtf8 buffer (.units units) (some writer) = some (accepted, chunks) ∧
      (∃ pieces : List (List Char), chunks = pieces.map encode ∧
        pieces.flatten <+: e.decode (units.map e.value)) ∧
      chunks.flatten <+: encode (e.decode (units.map e.value)) ∧
      (∀ chunk ∈ chunks, chunk ≠ [] ∧ chunk.length ≤ kMaximumUtf8ChunkLength) ∧
      (∀ earlier chunk later, chunks = earlier ++ chunk :: later →
        writer earlier chunk = false → later = [] ∧ accepted = false) ∧
      ((∀ earlier chunk later, chunks = earlier ++ chunk :: later → writer earlier chunk = true) →
        accepted = true ∧ chunks.flatten = encode (e.decode (units.map e.value))) := by
  obtain ⟨pieces, ⟨accepted, chunks⟩, hwrite, houtcome⟩ := writeUnits_spec buffer writer units
  obtain ⟨hchunks, hbounded, hprefix, hcomplete, hrejected⟩ := houtcome
  dsimp only at hchunks hcomplete hrejected
  have hflatten : chunks.flatten = encode pieces.flatten := by rw [hchunks, encode_flatten]
  refine ⟨accepted, chunks, hwrite, ⟨pieces, hchunks, hprefix⟩,
    hflatten ▸ encode_prefix hprefix, ?_, ?_, ?_⟩
  · intro chunk hchunk
    rw [hchunks] at hchunk
    obtain ⟨piece, hpiece, rfl⟩ := List.mem_map.mp hchunk
    exact hbounded piece hpiece
  · intro earlier chunk later heq hfalse
    cases accepted with
    | true => exact absurd ((hcomplete rfl).2 earlier chunk later heq) (by simp [hfalse])
    | false =>
      obtain ⟨before, last, hlast, hbefore, -⟩ := hrejected rfl
      obtain ⟨rfl, -, -⟩ | ⟨later', -, heq⟩ := append_cons_eq_concat (hlast.symm.trans heq)
      · exact ⟨rfl, rfl⟩
      · exact absurd (hbefore earlier chunk later' heq) (by simp [hfalse])
  · intro hall
    cases accepted with
    | true => exact ⟨rfl, by rw [hflatten, (hcomplete rfl).1]⟩
    | false =>
      obtain ⟨before, last, hlast, -, hfalse⟩ := hrejected rfl
      exact absurd (hall before last [] hlast) (by simp [hfalse])

end Utf8

end NgLog
