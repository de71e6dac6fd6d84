import NgLog.Support.Utf16
import NgLog.Unicode.WideWriter

/-!
# Writing narrow text with the wide text it encodes

On Windows a message that was logged as wide text is written in narrow pieces, such as its lines.
`WriteUtf8WithWideAsWide` looks for the part of the piece that the encoding of the wide text covers
and passes the wide text itself to the writer, so that surrogates without a partner reach it. To
find the units of a piece, `WideOffsetOf` encodes the wide text again from its start and compares
the number of bytes before each unit with the offset that it looks for.

A high surrogate encodes nothing until the next unit arrives. So if that unit is no low surrogate,
two characters are encoded at once, and there is no unit before which the first of them ends.

## Main definitions

* `writeUtf8WithWideAsWide` — the function, for any converter of the platform
* `Splits`, `Lost` — the cuts of the characters, and of the units, that the lookup misses
* `Marks` — what it gives for the others

## Main results

* `findsCuts` — the lookup of a cut from any point on
* `wideOffsetOf_eq_none_iff` — the lookup misses these cuts and no others
-/

namespace NgLog

namespace Utf8

open Unicode

/-! ### The code -/

/-- `kMaximumWideChunkLength`. -/
def kMaximumWideChunkLength : ℕ := 1024

/-- A `WideWriteFunction`: whether it succeeds with a chunk, after the chunks it has been passed,
and how many of its units it has written. -/
abbrev WideWriter : Type := List (List UInt16) → List UInt16 → Bool × ℕ

/-- What a writer has been passed, and the units that it has written. -/
structure WideOutput where
  chunks : List (List UInt16)
  written : List UInt16

/-- The call of the writer in the loop of `WriteAll`. -/
def WideOutput.pass (writer : WideWriter) (out : WideOutput) (chunk : List UInt16) : WideOutput :=
  ⟨out.chunks ++ [chunk], out.written ++ chunk.take (writer out.chunks chunk).2⟩

/-- The writer fails, or reports a length that makes no sense. -/
def Fails (writer : WideWriter) (chunks : List (List UInt16)) (chunk : List UInt16) : Prop :=
  (writer chunks chunk).1 = false ∨ (writer chunks chunk).2 = 0 ∨
    chunk.length < (writer chunks chunk).2

instance (writer : WideWriter) (chunks : List (List UInt16)) (chunk : List UInt16) :
    Decidable (Fails writer chunks chunk) := instDecidableOr

/-- `WriteAll`. -/
def writeAll (writer : WideWriter) (maximumChunkLength : ℕ) (input : List UInt16)
    (out : WideOutput) : Bool × WideOutput :=
  if input = [] then (true, out)
  else if Fails writer out.chunks (input.take maximumChunkLength) then
    (false, out.pass writer (input.take maximumChunkLength))
  else
    writeAll writer maximumChunkLength
      (input.drop (writer out.chunks (input.take maximumChunkLength)).2)
      (out.pass writer (input.take maximumChunkLength))
  termination_by input.length
  decreasing_by
    rename_i hne hfails
    have hpos := List.length_pos_iff.mpr hne
    have hwritten := Nat.pos_of_ne_zero fun h => hfails (.inr (.inl h))
    rw [List.length_drop]
    omega

/-- `IsContinuation`. -/
def isContinuation (value : Byte) : Bool := 0x80 ≤ value && value ≤ 0xbf

/-- The loop of `Utf8ChunkLength`, which takes the boundary back at most `count` times. -/
def chunkBoundary (input : List Byte) : ℕ → ℕ → ℕ
  | 0, boundary => boundary
  | count + 1, boundary =>
    if (input[boundary]?).any isContinuation then chunkBoundary input count (boundary - 1)
    else boundary

/-- `kMaximumContinuationBytes`. -/
def kMaximumContinuationBytes : ℕ := 3

/-- `Utf8ChunkLength`. -/
def utf8ChunkLength (input : List Byte) : ℕ :=
  let chunkLength := min input.length kMaximumWideChunkLength
  let boundary := chunkBoundary input kMaximumContinuationBytes chunkLength
  if boundary = 0 ∨ (input[boundary]?).any isContinuation then chunkLength else boundary

/-- `MultiByteToWideChar(CP_UTF8, 0, ...)`: the units that it writes into a buffer of the given
size, none if it fails. -/
abbrev MultiByteToWideChar : Type := List Byte → ℕ → List UInt16

/-- The loop of `WriteUtf8AsWide`. -/
def writeUtf8AsWide (multiByteToWideChar : MultiByteToWideChar) (writer : WideWriter)
    (input : List Byte) (out : WideOutput) : Bool × WideOutput :=
  if input = [] then (true, out)
  else if utf8ChunkLength input = 0 then (false, out)
  else
    let wide :=
      multiByteToWideChar (input.take (utf8ChunkLength input)) kMaximumWideChunkLength
    if wide = [] then (false, out)
    else
      match writeAll writer wide.length wide out with
      | (false, out) => (false, out)
      | (true, out) =>
        writeUtf8AsWide multiByteToWideChar writer (input.drop (utf8ChunkLength input)) out
  termination_by input.length
  decreasing_by
    have hpos := List.length_pos_iff.mpr ‹¬input = []›
    have hlength := Nat.pos_of_ne_zero ‹¬utf8ChunkLength input = 0›
    rw [List.length_drop]
    omega

/-- `WideSpan`, with its pointers as addresses. -/
structure WideSpan where
  first : ℕ
  last : ℕ
  text : List UInt16

/-- The loop of `WideOffsetOf`, from a unit on. -/
def wideOffsetLoop (narrowOffset : ℕ) (encoder : Encoder) (position index : ℕ) :
    List UInt16 → Option ℕ
  | [] => if position + encoder.finish.1.length = narrowOffset then some index else none
  | unit :: units =>
    if position = narrowOffset then some index
    else
      wideOffsetLoop narrowOffset (encoder.put .utf16 unit).2
        (position + (encoder.put .utf16 unit).1.length) (index + 1) units

/-- `WideOffsetOf`. -/
def wideOffsetOf (wide : WideSpan) (narrowOffset : ℕ) : Option ℕ :=
  wideOffsetLoop narrowOffset ⟨0⟩ 0 0 wide.text

/-- `WideChunkLength`. -/
def wideChunkLength (input : List UInt16) : ℕ :=
  let chunkLength := min input.length kMaximumWideChunkLength
  if chunkLength < input.length ∧
      (input[chunkLength - 1]?).any (fun last => 0xd800 ≤ last ∧ last ≤ 0xdbff) then
    chunkLength - 1
  else chunkLength

theorem wideChunkLength_pos {input : List UInt16} (h : input ≠ []) : 0 < wideChunkLength input := by
  have hpos := List.length_pos_iff.mpr h
  rw [wideChunkLength, kMaximumWideChunkLength]
  split <;> omega

/-- `WriteWideUnchanged`. -/
def writeWideUnchanged (writer : WideWriter) (input : List UInt16) (out : WideOutput) :
    Bool × WideOutput :=
  if input = [] then (true, out)
  else
    match writeAll writer (wideChunkLength input) (input.take (wideChunkLength input)) out with
    | (false, out) => (false, out)
    | (true, out) => writeWideUnchanged writer (input.drop (wideChunkLength input)) out
  termination_by input.length
  decreasing_by
    have hlength := wideChunkLength_pos ‹¬input = []›
    have hpos := List.length_pos_iff.mpr ‹¬input = []›
    rw [List.length_drop]
    omega

/-- Narrow text to write: a null pointer with a length, or bytes at an address. -/
inductive NarrowText
  | null (length : ℕ)
  | bytes (address : ℕ) (text : List Byte)

/-- `WriteUtf8WithWideAsWide` after the check of its arguments. -/
def writeOverlap (multiByteToWideChar : MultiByteToWideChar) (writer : WideWriter) (input : ℕ)
    (text : List Byte) (wide : WideSpan) (out : WideOutput) : Bool × WideOutput :=
  let last := input + text.length
  let overlapBegin := if input < wide.first then wide.first else input
  let overlapEnd := if wide.last < last then wide.last else last
  let offsets :=
    if overlapBegin < overlapEnd then
      (wideOffsetOf wide (overlapBegin - wide.first)).bind fun wideBegin =>
        (wideOffsetOf wide (overlapEnd - wide.first)).map fun wideEnd => (wideBegin, wideEnd)
    else none
  match offsets with
  | none => writeUtf8AsWide multiByteToWideChar writer text out
  | some (wideBegin, wideEnd) =>
    match writeUtf8AsWide multiByteToWideChar writer (text.take (overlapBegin - input)) out with
    | (false, out) => (false, out)
    | (true, out) =>
      match writeWideUnchanged writer ((wide.text.drop wideBegin).take (wideEnd - wideBegin)) out
        with
      | (false, out) => (false, out)
      | (true, out) =>
        writeUtf8AsWide multiByteToWideChar writer (text.drop (overlapEnd - input)) out

/-- `WriteUtf8WithWideAsWide`. -/
def writeUtf8WithWideAsWide (multiByteToWideChar : MultiByteToWideChar) (input : NarrowText)
    (wide : WideSpan) (writer : Option WideWriter) (out : WideOutput) : Bool × WideOutput :=
  match input, writer with
  | .null (_ + 1), _ => (false, out)
  | _, none => (false, out)
  | .null 0, some writer => writeOverlap multiByteToWideChar writer 0 [] wide out
  | .bytes address text, some writer =>
    writeOverlap multiByteToWideChar writer address text wide out

/-! ### Looking up a cut of the characters -/

/-- The character cut off is a high surrogate without a partner, which is encoded together with the
unit that follows it: that is no high surrogate, or the last one, which `Finish` completes. -/
def Splits (units : List UInt32) (text : List Char) : Prop :=
  ∃ before high next after, units = before ++ high :: next :: after ∧
    decodeUtf16 (before ++ [high]) = text ∧ IsHighSurrogate high ∧ ¬IsLowSurrogate next ∧
    (IsHighSurrogate next → after = [])

/-- The unit before the cut is kept until the encoding has passed the cut. -/
def Lost (u v : List UInt32) : Prop :=
  ∃ before high next after, u = before ++ [high] ∧ v = next :: after ∧ IsHighSurrogate high ∧
    (IsHighSurrogate next → after = [])

/-- The number of units that stands for a cut: those before it, and one more if the next unit is
kept at that point. -/
def Marks (u v : List UInt32) (index : ℕ) : Prop :=
  index = u.length ∨ ∃ high v', v = high :: v' ∧ IsHighSurrogate high ∧ index = u.length + 1

theorem not_lost_nil (v : List UInt32) : ¬Lost [] v := by
  rintro ⟨before, high, next, after, hnil, -⟩
  simp at hnil

/-- Only the last unit before the cut decides whether the cut is lost. -/
theorem lost_cons_iff {unit : UInt32} {u v : List UInt32} (h : u = [] → ¬IsHighSurrogate unit) :
    Lost (unit :: u) v ↔ Lost u v := by
  constructor
  · rintro ⟨before, high, next, after, hu, hrest⟩
    rcases before with _ | ⟨first, before⟩
    · obtain ⟨rfl, rfl⟩ := List.cons.inj hu
      exact absurd hrest.2.1 (h rfl)
    · exact ⟨before, high, next, after, (List.cons.inj hu).2, hrest⟩
  · rintro ⟨before, high, next, after, rfl, hrest⟩
    exact ⟨unit :: before, high, next, after, rfl, hrest⟩

theorem Marks.cons {u v : List UInt32} {index : ℕ} (h : Marks u v index) (unit : UInt32) :
    Marks (unit :: u) v (index + 1) := by
  rcases h with rfl | ⟨high, v', hv, hhigh, rfl⟩
  · exact .inl rfl
  · exact .inr ⟨high, v', hv, hhigh, rfl⟩

/-- What the lookup of a cut gives: nothing if the cut is lost, and else a number that marks it. -/
structure Finds (u v : List UInt32) (base : ℕ) (result : Option ℕ) : Prop where
  lost : Lost u v → result = none
  found : ¬Lost u v → ∃ index, result = some (base + index) ∧ Marks u v index

theorem Finds.cons {unit : UInt32} {u v : List UInt32} {base : ℕ} {result : Option ℕ}
    (h : Finds u v (base + 1) result) (hunit : u = [] → ¬IsHighSurrogate unit) :
    Finds (unit :: u) v base result where
  lost hlost := h.lost ((lost_cons_iff hunit).mp hlost)
  found hlost := by
    obtain ⟨index, hresult, hmarks⟩ := h.found (mt (lost_cons_iff hunit).mpr hlost)
    exact ⟨index + 1, by rw [hresult, Nat.add_assoc, Nat.add_comm 1], hmarks.cons unit⟩

section Put

variable {high unit : UInt16}

theorem putUnit_of_high (h : IsHighSurrogate unit.toUInt32) :
    Encoder.putUnit .utf16 unit.toUInt32 = ([], ⟨unit.toUInt32⟩) := by
  rw [Encoder.putUnit, if_pos]
  exact ⟨rfl, h⟩

theorem putUnit_of_not_high (h : ¬IsHighSurrogate unit.toUInt32) :
    Encoder.putUnit .utf16 unit.toUInt32 = (encode [scalar unit.toUInt32], ⟨0⟩) := by
  rw [Encoder.putUnit, if_neg fun hhigh => h hhigh.2]
  exact Prod.ext (encodeCodePoint_scalar _) rfl

theorem put_zero (unit : UInt16) :
    Encoder.put .utf16 ⟨0⟩ unit = Encoder.putUnit .utf16 unit.toUInt32 := by
  rw [Encoder.put, if_neg (not_not.mpr rfl)]
  rfl

theorem put_low {encoder : Encoder} (h : IsHighSurrogate encoder.highSurrogate)
    (hlow : IsLowSurrogate unit.toUInt32) :
    encoder.put .utf16 unit =
      (encode [surrogatePair encoder.highSurrogate unit.toUInt32], ⟨0⟩) := by
  rw [Encoder.put, if_pos (Encoder.ne_zero_of_isHighSurrogate h), if_pos]
  · exact congrArg (fun bytes => (bytes, (⟨0⟩ : Encoder))) (encodeCodePoint_surrogatePair h hlow)
  · exact isLowSurrogate_iff.mpr hlow

theorem put_not_low {encoder : Encoder} (h : IsHighSurrogate encoder.highSurrogate)
    (hlow : ¬IsLowSurrogate unit.toUInt32) :
    encoder.put .utf16 unit = (encode [replacement] ++ (Encoder.putUnit .utf16 unit.toUInt32).1,
      (Encoder.putUnit .utf16 unit.toUInt32).2) := by
  rw [Encoder.put, if_pos (Encoder.ne_zero_of_isHighSurrogate h), if_neg]
  · rw [encodeCodePoint_replacement]
    rfl
  · exact fun hrange => hlow (isLowSurrogate_iff.mp hrange)

end Put

/-- Past the offset the lookup finds nothing. -/
theorem wideOffsetLoop_eq_none {narrowOffset position : ℕ} (h : narrowOffset < position)
    (units : List UInt16) (encoder : Encoder) (index : ℕ) :
    wideOffsetLoop narrowOffset encoder position index units = none := by
  induction units generalizing encoder position index with
  | nil =>
    rw [wideOffsetLoop, if_neg]
    omega
  | cons unit units ih =>
    rw [wideOffsetLoop, if_neg (Nat.ne_of_gt h)]
    exact ih (Nat.lt_of_lt_of_le h (Nat.le_add_right _ _)) _ _

theorem wideOffsetLoop_cons {narrowOffset position index : ℕ} {encoder : Encoder} {unit : UInt16}
    (units : List UInt16) (h : position < narrowOffset) :
    wideOffsetLoop narrowOffset encoder position index (unit :: units) =
      wideOffsetLoop narrowOffset (encoder.put .utf16 unit).2
        (position + (encoder.put .utf16 unit).1.length) (index + 1) units :=
  if_neg (Nat.ne_of_lt h)

theorem length_encode_pos {text : List Char} (h : text ≠ []) : 0 < (encode text).length :=
  List.length_pos_iff.mpr (mt encode_eq_nil_iff.mp h)

theorem length_encode_cons (c : Char) (text : List Char) :
    (encode (c :: text)).length = (encode [c]).length + (encode text).length := by
  rw [← List.length_append, ← encode_append]
  rfl

theorem pending_eq {value : UInt32} (h : IsHighSurrogate value) :
    (⟨value⟩ : Encoder).pending = [value] :=
  Encoder.pending_of_ne_zero (Encoder.ne_zero_of_isHighSurrogate h)

/-- What the lookup finds from a point on. The encoder and the units that are left hold the units
from `base` on, and the offset is that of a cut of those. -/
def FindsCuts (units : List UInt16) : Prop :=
  ∀ (encoder : Encoder) (u v : List UInt32) (position base : ℕ), encoder.WellFormed .utf16 →
    encoder.pending ++ unitValues units = u ++ v → Cut u v →
    (u = [] → units = [] → encoder.pending = []) →
    Finds u v base (wideOffsetLoop (position + (encode (decodeUtf16 u)).length) encoder position
      (base + encoder.pending.length) units)

/-- After a unit that leaves none kept. -/
theorem FindsCuts.of_zero {units : List UInt16} (h : FindsCuts units) {u v : List UInt32}
    (hunits : unitValues units = u ++ v) (hcut : Cut u v) (position base : ℕ) :
    Finds u v base (wideOffsetLoop (position + (encode (decodeUtf16 u)).length) ⟨0⟩ position base
      units) :=
  h ⟨0⟩ u v position base (Encoder.wellFormed_zero _) hunits hcut fun _ _ => rfl

/-- After a unit that is kept. -/
theorem FindsCuts.of_high {units : List UInt16} (h : FindsCuts units) {high : UInt32}
    (hhigh : IsHighSurrogate high) {u v : List UInt32}
    (hunits : high :: unitValues units = u ++ v) (hcut : Cut u v) (hstart : u = [] → units ≠ [])
    (position base : ℕ) :
    Finds u v base (wideOffsetLoop (position + (encode (decodeUtf16 u)).length) ⟨high⟩ position
      (base + 1) units) := by
  have hpending := pending_eq hhigh
  have hfinds := h ⟨high⟩ u v position base (.inr ⟨rfl, hhigh⟩) (by rw [hpending]; exact hunits)
    hcut fun hu hnil => absurd hnil (hstart hu)
  rwa [hpending] at hfinds

/-- The end of the text: a kept unit is encoded now. -/
theorem findsCuts_nil : FindsCuts [] := by
  intro encoder u v position base hencoder hunits hcut hstart
  have hv : v = [] := by
    by_cases hzero : encoder.highSurrogate = 0
    · rw [Encoder.pending, if_pos hzero] at hunits
      exact (List.append_eq_nil_iff.mp hunits.symm).2
    · rw [Encoder.pending_of_ne_zero hzero] at hunits hstart
      rcases u with _ | ⟨unit, u⟩
      · exact absurd (hstart rfl rfl) (List.cons_ne_nil _ _)
      · exact (List.append_eq_nil_iff.mp (List.cons.inj hunits).2.symm).2
  subst hv
  rw [unitValues, List.map_nil, List.append_nil, List.append_nil] at hunits
  refine ⟨?_, fun _ => ⟨u.length, ?_, .inl rfl⟩⟩
  · rintro ⟨before, high, next, after, -, hnil, -⟩
    simp at hnil
  · rw [wideOffsetLoop, (Encoder.finish_spec hencoder).1, WideEncoding.decode, hunits, if_pos rfl]

section Cons

variable {unit : UInt16} {units : List UInt16} {u v : List UInt32}

/-- The lookup ends before the next unit, with the kept one if there is one. -/
theorem finds_nil {encoder : Encoder} (hencoder : encoder.WellFormed .utf16)
    (hunits : encoder.pending ++ unitValues (unit :: units) = v) (position base : ℕ) :
    Finds [] v base (wideOffsetLoop position encoder position (base + encoder.pending.length)
      (unit :: units)) := by
  refine ⟨fun hlost => absurd hlost (not_lost_nil v), fun _ => ⟨encoder.pending.length, ?_, ?_⟩⟩
  · exact if_pos rfl
  · rcases hencoder with hzero | ⟨-, hhigh⟩
    · rw [Encoder.pending, if_pos hzero]
      exact .inl rfl
    · rw [pending_eq hhigh] at hunits ⊢
      exact .inr ⟨_, _, hunits.symm, hhigh, rfl⟩

/-- A unit that no kept one precedes. -/
theorem FindsCuts.cons_zero (h : FindsCuts units)
    (hunits : unit.toUInt32 :: unitValues units = unit.toUInt32 :: u ++ v)
    (hcut : Cut (unit.toUInt32 :: u) v) (position base : ℕ) :
    Finds (unit.toUInt32 :: u) v base
      (wideOffsetLoop (position + (encode (decodeUtf16 (unit.toUInt32 :: u))).length)
        (Encoder.put .utf16 ⟨0⟩ unit).2 (position + (Encoder.put .utf16 ⟨0⟩ unit).1.length)
        (base + 1) units) := by
  rw [put_zero]
  by_cases hunit : IsHighSurrogate unit.toUInt32
  -- the unit is kept
  · rw [putUnit_of_high hunit]
    exact h.of_high hunit hunits hcut (fun hnil => absurd hnil (List.cons_ne_nil _ _)) position base
  · rw [putUnit_of_not_high hunit, decodeUtf16_other hunit, length_encode_cons, ← Nat.add_assoc]
    exact (h.of_zero (List.cons.inj hunits).2 hcut.tail _ (base + 1)).cons fun _ => hunit

/-- The lookup of a cut right after a kept unit. -/
theorem Finds.kept {high : UInt32} {v : List UInt32} {base : ℕ} {result : Option ℕ}
    (h : Finds [] v (base + 1) result) (hlost : ¬Lost [high] v) : Finds [high] v base result where
  lost hlost' := absurd hlost' hlost
  found _ := by
    obtain ⟨index, hresult, hmarks⟩ := h.found (not_lost_nil v)
    exact ⟨index + 1, by rw [hresult, Nat.add_assoc, Nat.add_comm 1], hmarks.cons high⟩

/-- A kept unit that turns out to have no partner. -/
theorem decodeUtf16_kept {high unit : UInt32} {u v rest : List UInt32}
    (hhigh : IsHighSurrogate high) (hunit : ¬IsLowSurrogate unit) (h : unit :: rest = u ++ v) :
    decodeUtf16 (high :: u) = replacement :: decodeUtf16 u := by
  rw [← scalar_of_isHighSurrogate hhigh]
  rcases u with _ | ⟨second, u⟩
  · rfl
  · obtain ⟨rfl, -⟩ := List.cons.inj h
    exact decodeUtf16_unpaired hunit u

/-- A unit that a kept one precedes. -/
theorem FindsCuts.cons_kept (h : FindsCuts units) {encoder : Encoder}
    (hkept : IsHighSurrogate encoder.highSurrogate)
    (hunits : unit.toUInt32 :: unitValues units = u ++ v)
    (hcut : Cut (encoder.highSurrogate :: u) v) (position base : ℕ) :
    Finds (encoder.highSurrogate :: u) v base
      (wideOffsetLoop (position + (encode (decodeUtf16 (encoder.highSurrogate :: u))).length)
        (encoder.put .utf16 unit).2 (position + (encoder.put .utf16 unit).1.length)
        (base + 2) units) := by
  by_cases hlow : IsLowSurrogate unit.toUInt32
  -- the units are a pair, which the cut leaves together
  · rcases u with _ | ⟨second, u⟩
    · exact absurd hlow (hcut [] _ _ _ rfl hunits.symm hkept)
    · obtain ⟨rfl, hrest⟩ := List.cons.inj hunits
      have hsecond : ¬IsHighSurrogate unit.toUInt32 := fun hhigh =>
        not_isLowSurrogate_of_high hhigh hlow
      rw [put_low hkept hlow, decodeUtf16_pair hkept hlow, length_encode_cons, ← Nat.add_assoc]
      dsimp only
      exact ((h.of_zero hrest hcut.tail.tail _ (base + 2)).cons fun _ => hsecond).cons
        fun hnil => absurd hnil (List.cons_ne_nil _ _)
  · rw [put_not_low hkept hlow, decodeUtf16_kept hkept hlow hunits,
      length_encode_cons replacement, ← Nat.add_assoc]
    by_cases hunit : IsHighSurrogate unit.toUInt32
    -- the kept unit is encoded, and this one is kept
    · rw [putUnit_of_high hunit, List.append_nil]
      by_cases hend : u = [] ∧ units = []
      · obtain ⟨rfl, rfl⟩ := hend
        refine ⟨fun _ => ?_, fun hlost => absurd ?_ hlost⟩
        · rw [wideOffsetLoop, Encoder.finish, if_neg (Encoder.ne_zero_of_isHighSurrogate hunit),
            if_neg]
          rw [encodeCodePoint_replacement, length_encode_replacement]
          simp
        · exact ⟨[], _, _, _, rfl, hunits.symm, hkept, fun _ => rfl⟩
      · have hfinds := h.of_high hunit hunits hcut.tail (fun hu hnil => hend ⟨hu, hnil⟩)
          (position + (encode [replacement]).length) (base + 1)
        by_cases hu : u = []
        · subst hu
          refine hfinds.kept ?_
          rintro ⟨before, high, next, after, -, rfl, -, hafter⟩
          obtain ⟨rfl, hrest⟩ := List.cons.inj hunits
          rw [hafter hunit, unitValues, List.map_eq_nil_iff] at hrest
          exact hend ⟨rfl, hrest⟩
        · exact hfinds.cons fun hnil => absurd hnil hu
    -- both units are encoded at once
    · rw [putUnit_of_not_high hunit, List.length_append, ← Nat.add_assoc]
      rcases u with _ | ⟨second, u⟩
      · refine ⟨fun _ => wideOffsetLoop_eq_none ?_ _ _ _, fun hlost => absurd ?_ hlost⟩
        · exact Nat.lt_add_of_pos_right (length_encode_pos (List.cons_ne_nil _ _))
        · exact ⟨[], _, _, _, rfl, hunits.symm, hkept, fun hhigh => absurd hhigh hunit⟩
      · obtain ⟨rfl, hrest⟩ := List.cons.inj hunits
        rw [decodeUtf16_other hunit, length_encode_cons (scalar _), ← Nat.add_assoc]
        exact ((h.of_zero hrest hcut.tail.tail _ (base + 2)).cons fun _ => hunit).cons
          fun hnil => absurd hnil (List.cons_ne_nil _ _)

end Cons

/-- The lookup, by induction on the units that are left. -/
theorem findsCuts (units : List UInt16) : FindsCuts units := by
  induction units with
  | nil => exact findsCuts_nil
  | cons unit units ih =>
    intro encoder u v position base hencoder hunits hcut hstart
    rcases u with _ | ⟨first, u⟩
    · exact finds_nil hencoder hunits position base
    · rw [wideOffsetLoop_cons units (Nat.lt_add_of_pos_right
        (length_encode_pos (decodeUtf16_ne_nil (List.cons_ne_nil _ _))))]
      rcases hencoder with hzero | ⟨-, hkept⟩
      · obtain ⟨value⟩ := encoder
        obtain rfl : value = 0 := hzero
        obtain ⟨rfl, -⟩ := List.cons.inj hunits
        exact ih.cons_zero hunits hcut position base
      · rw [pending_eq hkept] at hunits ⊢
        obtain ⟨rfl, htail⟩ := List.cons.inj hunits
        exact ih.cons_kept hkept htail hcut position base

/-- The lookup of a cut of the units. -/
theorem finds_wideOffsetOf {wide : WideSpan} {u v : List UInt32}
    (hunits : unitValues wide.text = u ++ v) (hcut : Cut u v) :
    Finds u v 0 (wideOffsetOf wide (encode (decodeUtf16 u)).length) := by
  have hfinds := findsCuts wide.text ⟨0⟩ u v 0 0 (Encoder.wellFormed_zero _) hunits hcut
    fun _ _ => rfl
  rwa [Nat.zero_add] at hfinds

/-- The lookup of a cut of the characters. -/
theorem wideOffsetOf_eq_none_iff (wide : WideSpan) {p q : List Char}
    (h : decodeUtf16 (unitValues wide.text) = p ++ q) :
    wideOffsetOf wide (encode p).length = none ↔ Splits (unitValues wide.text) p := by
  constructor
  · intro hnone
    obtain ⟨u, v, hunits, rfl, rfl⟩ := decodeUtf16_split h
    have hcut := cut_iff.mpr (hunits ▸ h)
    by_cases hlost : Lost u v
    · obtain ⟨before, high, next, after, rfl, rfl, hhigh, hnext⟩ := hlost
      refine ⟨before, high, next, after, ?_, rfl, hhigh, hcut before high next after rfl rfl hhigh,
        hnext⟩
      rw [hunits, List.append_assoc, List.singleton_append]
    · obtain ⟨index, hfound, -⟩ := (finds_wideOffsetOf hunits hcut).found hlost
      rw [hnone] at hfound
      exact absurd hfound (by simp)
  · rintro ⟨before, high, next, after, hunits, rfl, hhigh, hlow, hnext⟩
    rw [← List.singleton_append, ← List.append_assoc] at hunits
    exact (finds_wideOffsetOf hunits (cut_of_not_isLowSurrogate _ hlow after)).lost
      ⟨before, high, next, after, rfl, rfl, hhigh, hnext⟩

end Utf8

end NgLog
