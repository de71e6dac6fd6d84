import NgLog.Unicode.WideSpan

/-!
# Writing the encoding of a wide text piece by piece

The encoding of a wide text is written in consecutive pieces, each of which consists of whole code
points. A piece whose both ends are found in the wide text is written as the units between them. Any
other piece is converted, which turns a surrogate without a partner into U+FFFD.

The pieces deliver the wide text unless one of their cuts is missed. If one is, then the piece
before it is converted although it ends with such a surrogate, and the output holds more units
U+FFFD than the wide text does.

## Main definitions

* `encodeWide` — what `Utf8Encoder` makes of a wide text
* `ConvertsUtf8` — what the conversion of the platform does with well-formed text
* `writePieces` — one call for each piece

## Main results

* `utf8ChunkLength_encode` — a chunk of well-formed text ends between two code points
* `writeUtf8WithWideAsWide_spec` — what one call delivers
* `delivers_iff` — every writer gets the wide text unchanged iff no cut is missed
-/

namespace NgLog

namespace Utf8

open Unicode

/-- The bytes that a `Utf8Encoder` writes for units and at the end. -/
def encodeUnits (encoder : Encoder) : List UInt16 → List Byte
  | [] => encoder.finish.1
  | unit :: units => (encoder.put .utf16 unit).1 ++ encodeUnits (encoder.put .utf16 unit).2 units

/-- The encoding of a wide text. -/
def encodeWide (wide : List UInt16) : List Byte := encodeUnits ⟨0⟩ wide

/-- The conversion of well-formed text that fits into the buffer. -/
def ConvertsUtf8 (multiByteToWideChar : MultiByteToWideChar) : Prop :=
  ∀ (text : List Char) (size : ℕ), (encodeUtf16 text).length ≤ size →
    multiByteToWideChar (encode text) size = (encodeUtf16 text)

/-- Writes consecutive pieces, the first of them at the given address, until one fails. -/
def writePieces (multiByteToWideChar : MultiByteToWideChar) (writer : WideWriter)
    (wide : WideSpan) (address : ℕ) : List (List Byte) → WideOutput → Bool × WideOutput
  | [], out => (true, out)
  | piece :: pieces, out =>
    match writeUtf8WithWideAsWide multiByteToWideChar (.bytes address piece) wide (some writer) out
      with
    | (false, out) => (false, out)
    | (true, out) =>
      writePieces multiByteToWideChar writer wide (address + piece.length) pieces out

/-- What has been written after some output: the units, or up to a chunk that the writer failed to
write. -/
structure Delivers (writer : WideWriter) (before : WideOutput) (units : List UInt16)
    (result : Bool × WideOutput) : Prop where
  complete : result.1 = true → result.2.written = before.written ++ units
  failed : result.1 = false → ∃ chunks chunk, result.2.chunks = chunks ++ [chunk] ∧
    chunk ≠ [] ∧ Fails writer chunks chunk

/-! ### Chunks of well-formed text -/

theorem isContinuation_continuationByte (codePoint shift : UInt32) :
    isContinuation (continuationByte codePoint shift) = true := by
  have hbits : ∀ bits < 64, isContinuation ((bits : ℕ).toUInt8 ||| 0x80) = true := by decide
  have hlt : ((codePoint >>> shift).toUInt8 &&& 0x3f).toNat < 64 := by
    rw [UInt8.toNat_and]
    exact Nat.lt_succ_of_le Nat.and_le_right
  have heq := hbits _ hlt
  rwa [Nat.toUInt8_eq, UInt8.ofNat_toNat, ← continuationByte_eq] at heq

/-- All bytes of a character but the first one are continuation bytes. -/
theorem isContinuation_of_mem_tail {c : Char} {byte : Byte} (h : byte ∈ (encode [c]).tail) :
    isContinuation byte = true := by
  rw [← encodeCodePoint_eq, encodeCodePoint] at h
  split_ifs at h <;> simp only [List.tail_cons, List.mem_cons, List.not_mem_nil, or_false] at h
  · rw [h]
    exact isContinuation_continuationByte _ _
  · rcases h with rfl | rfl <;> exact isContinuation_continuationByte _ _
  · rcases h with rfl | rfl | rfl <;> exact isContinuation_continuationByte _ _

theorem not_isContinuation_of_isUTF8FirstByte {byte : Byte} (h : byte.IsUTF8FirstByte) :
    isContinuation byte = false := by
  have hall : ∀ n < 256, (n.toUInt8).IsUTF8FirstByte → isContinuation n.toUInt8 = false := by
    decide +kernel
  have heq := hall byte.toNat byte.toNat_lt
  rw [Nat.toUInt8_eq, UInt8.ofNat_toNat] at heq
  exact heq h

theorem not_isContinuation_head (c : Char) :
    ((encode [c])[0]?).any isContinuation = false := by
  rw [List.getElem?_eq_getElem (length_encode_pos (List.cons_ne_nil c []))]
  refine not_isContinuation_of_isUTF8FirstByte ?_
  simp only [encode_singleton]
  exact UInt8.isUTF8FirstByte_getElem_zero_utf8EncodeChar

/-- The loop goes back over continuation bytes only. -/
theorem chunkBoundary_eq {input : List Byte} {start : ℕ}
    (hstart : (input[start]?).any isContinuation = false) (count k : ℕ) (hk : k ≤ count)
    (hcontinuation : ∀ i, 0 < i → i ≤ k → (input[start + i]?).any isContinuation = true) :
    chunkBoundary input count (start + k) = start := by
  induction count generalizing k with
  | zero =>
    obtain rfl := Nat.le_zero.mp hk
    rfl
  | succ count ih =>
    rcases k with _ | k
    · rw [chunkBoundary, Nat.add_zero, hstart]
      rfl
    · rw [chunkBoundary, if_pos (hcontinuation (k + 1) (Nat.succ_pos k) (Nat.le_refl _))]
      exact ih k (Nat.le_of_succ_le_succ hk) fun i hi hle =>
        hcontinuation i hi (Nat.le_succ_of_le hle)

/-- The character that a limit on the bytes lies within. -/
theorem exists_character_at {text : List Char} {limit : ℕ} (h : limit < (encode text).length) :
    ∃ p c q, text = p ++ c :: q ∧ (encode p).length ≤ limit ∧
      limit < (encode p).length + (encode [c]).length := by
  induction text generalizing limit with
  | nil => exact absurd h (Nat.not_lt_zero _)
  | cons first text ih =>
    rw [length_encode_cons] at h
    by_cases hlimit : limit < (encode [first]).length
    · exact ⟨[], first, text, rfl, Nat.zero_le _, by simpa using hlimit⟩
    · obtain ⟨p, c, q, rfl, hle, hlt⟩ := ih (by omega : limit - (encode [first]).length < _)
      refine ⟨first :: p, c, q, rfl, ?_, ?_⟩ <;> rw [length_encode_cons] <;> omega

/-- A chunk of well-formed text ends between two code points. -/
theorem utf8ChunkLength_encode {text : List Char} (h : text ≠ []) :
    ∃ p q, text = p ++ q ∧ p ≠ [] ∧ utf8ChunkLength (encode text) = (encode p).length ∧
      (encode p).length ≤ kMaximumWideChunkLength := by
  have hpos := length_encode_pos h
  by_cases hshort : (encode text).length ≤ kMaximumWideChunkLength
  · refine ⟨text, [], (List.append_nil _).symm, h, ?_, hshort⟩
    have hend : ((encode text)[(encode text).length]?).any isContinuation = false := by
      rw [List.getElem?_eq_none (Nat.le_refl _)]
      rfl
    have hboundary := chunkBoundary_eq hend kMaximumContinuationBytes 0
      (Nat.zero_le _) fun i hi hle => by omega
    rw [Nat.add_zero] at hboundary
    rw [utf8ChunkLength, Nat.min_eq_left hshort, hboundary, hend, if_neg]
    rintro (hzero | hfalse)
    · exact absurd hzero (Nat.ne_of_gt hpos)
    · simp at hfalse
  · obtain ⟨p, c, q, rfl, hle, hlt⟩ := exists_character_at (Nat.lt_of_not_le hshort)
    have hfour := length_encode_singleton_le c
    have hbytes : encode (p ++ c :: q) = encode p ++ (encode [c] ++ encode q) := by
      rw [← encode_append, ← encode_append]
      rfl
    have hhead : ((encode (p ++ c :: q))[(encode p).length]?).any isContinuation = false := by
      rw [hbytes, List.getElem?_append_right (Nat.le_refl _), Nat.sub_self,
        List.getElem?_append_left (length_encode_pos (List.cons_ne_nil c []))]
      exact not_isContinuation_head c
    have hboundary := chunkBoundary_eq hhead kMaximumContinuationBytes
      (kMaximumWideChunkLength - (encode p).length)
      (by rw [kMaximumContinuationBytes]; omega) fun i hi hik => by
        have hi' : i < (encode [c]).length := by omega
        rw [hbytes, List.getElem?_append_right (Nat.le_add_right _ _), Nat.add_sub_cancel_left,
          List.getElem?_append_left hi', List.getElem?_eq_getElem hi']
        refine isContinuation_of_mem_tail (c := c) ?_
        rw [List.mem_iff_getElem]
        refine ⟨i - 1, by rw [List.length_tail]; omega, ?_⟩
        rw [List.getElem_tail]
        congr 1
        omega
    rw [Nat.add_sub_cancel' hle] at hboundary
    refine ⟨p, c :: q, rfl, ?_, ?_, hle⟩
    · rintro rfl
      rw [encode_nil, List.length_nil, kMaximumWideChunkLength] at hlt
      omega
    · rw [utf8ChunkLength, Nat.min_eq_right (Nat.le_of_not_le hshort), hboundary, hhead, if_neg]
      rintro (hzero | hfalse)
      · rw [hzero, kMaximumWideChunkLength] at hlt
        omega
      · simp at hfalse

/-! ### What is delivered -/

section Delivery

variable {writer : WideWriter} {before : WideOutput} {units units' : List UInt16}
  {result : Bool × WideOutput}

theorem delivers_nil (writer : WideWriter) (before : WideOutput) :
    Delivers writer before [] (true, before) :=
  ⟨fun _ => (List.append_nil _).symm, fun h => absurd h (by simp)⟩

/-- A result after another one that succeeded. -/
theorem Delivers.append {middle : WideOutput} (h : Delivers writer before units (true, middle))
    (h' : Delivers writer middle units' result) : Delivers writer before (units ++ units') result
    where
  complete hresult := by
    rw [h'.complete hresult, h.complete rfl, List.append_assoc]
  failed := h'.failed

theorem Delivers.of_failed {middle : WideOutput}
    (h : Delivers writer before units (false, middle)) (units' : List UInt16) :
    Delivers writer before units' (false, middle) :=
  ⟨fun hfalse => absurd hfalse (by simp), h.failed⟩

/-- The writer that writes every chunk completely. -/
def acceptAll : WideWriter := fun _ chunk => (true, chunk.length)

theorem not_fails_acceptAll (chunks : List (List UInt16)) {chunk : List UInt16} (h : chunk ≠ []) :
    ¬Fails acceptAll chunks chunk := by
  rintro (hfalse | hzero | hlt)
  · cases hfalse
  · exact h (List.length_eq_zero_iff.mp hzero)
  · exact absurd hlt (Nat.lt_irrefl _)

/-- Such a writer gets all units. -/
theorem Delivers.written_eq (h : Delivers acceptAll before units result) :
    result.2.written = before.written ++ units := by
  cases hresult : result.1 with
  | true => exact h.complete hresult
  | false =>
    obtain ⟨chunks, chunk, -, hne, hfails⟩ := h.failed hresult
    exact absurd hfails (not_fails_acceptAll chunks hne)

theorem Delivers.units_eq (h : Delivers acceptAll before units result)
    (h' : Delivers acceptAll before units' result) : units = units' :=
  List.append_cancel_left (h.written_eq.symm.trans h'.written_eq)

theorem writeAll_spec (writer : WideWriter) {maximumChunkLength : ℕ} (hmax : 0 < maximumChunkLength)
    (input : List UInt16) (out : WideOutput) :
    Delivers writer out input (writeAll writer maximumChunkLength input out) := by
  induction input, out using writeAll.induct writer maximumChunkLength with
  | case1 out =>
    rw [writeAll, if_pos rfl]
    exact delivers_nil writer out
  | case2 input out hne hfails =>
    rw [writeAll, if_neg hne, if_pos hfails]
    refine ⟨fun h => absurd h (by simp), fun _ => ⟨out.chunks, _, rfl, ?_, hfails⟩⟩
    rw [Ne, List.take_eq_nil_iff]
    exact fun h => h.elim (Nat.ne_of_gt hmax) hne
  | case3 input out hne hfails ih =>
    rw [writeAll, if_neg hne, if_neg hfails]
    refine ⟨fun hresult => ?_, ih.failed⟩
    have hlength : (writer out.chunks (input.take maximumChunkLength)).2 ≤
        (input.take maximumChunkLength).length :=
      Nat.le_of_not_lt fun h => hfails (.inr (.inr h))
    rw [ih.complete hresult, WideOutput.pass, List.append_assoc, List.take_take]
    rw [Nat.min_eq_left (Nat.le_trans hlength (List.length_take_le ..)), List.take_append_drop]

theorem writeAll_length_spec (writer : WideWriter) (input : List UInt16) (out : WideOutput) :
    Delivers writer out input (writeAll writer input.length input out) := by
  by_cases hne : input = []
  · subst hne
    rw [writeAll, if_pos rfl]
    exact delivers_nil writer out
  · exact writeAll_spec writer (List.length_pos_iff.mpr hne) input out

theorem writeWideUnchanged_spec (writer : WideWriter) (input : List UInt16) (out : WideOutput) :
    Delivers writer out input (writeWideUnchanged writer input out) := by
  induction input, out using writeWideUnchanged.induct writer with
  | case1 out =>
    rw [writeWideUnchanged, if_pos rfl]
    exact delivers_nil writer out
  | case2 input out hne out' hwrite =>
    have hall := writeAll_spec writer (wideChunkLength_pos hne) (input.take (wideChunkLength input))
      out
    rw [hwrite] at hall
    rw [writeWideUnchanged, if_neg hne, hwrite]
    exact hall.of_failed input
  | case3 input out hne out' hwrite ih =>
    have hall := writeAll_spec writer (wideChunkLength_pos hne) (input.take (wideChunkLength input))
      out
    rw [hwrite] at hall
    rw [writeWideUnchanged, if_neg hne, hwrite]
    have happend := hall.append ih
    rwa [List.take_append_drop] at happend

/-- The conversion of well-formed text delivers its encoding in UTF-16. -/
theorem writeUtf8AsWide_spec {multiByteToWideChar : MultiByteToWideChar}
    (hconverts : ConvertsUtf8 multiByteToWideChar) (writer : WideWriter) (text : List Char)
    (out : WideOutput) :
    Delivers writer out (encodeUtf16 text)
      (writeUtf8AsWide multiByteToWideChar writer (encode text) out) := by
  induction hn : text.length using Nat.strongRecOn generalizing text out with
  | _ n ih =>
    by_cases hne : text = []
    · subst hne
      rw [encode_nil, writeUtf8AsWide, if_pos rfl]
      exact delivers_nil writer out
    · obtain ⟨p, q, rfl, hp, hlength, hle⟩ := utf8ChunkLength_encode hne
      have hpos := length_encode_pos hp
      have hconverted := hconverts p kMaximumWideChunkLength
        (Nat.le_trans (length_encodeUtf16_le p) hle)
      have hwritten := writeAll_length_spec writer (encodeUtf16 p) out
      rw [writeUtf8AsWide, if_neg (mt encode_eq_nil_iff.mp hne), hlength,
        if_neg (Nat.ne_of_gt hpos), encode_append, List.take_left, List.drop_left]
      dsimp only
      rw [hconverted, if_neg (mt encodeUtf16_eq_nil_iff.mp hp)]
      rcases hresult : writeAll writer (encodeUtf16 p).length (encodeUtf16 p) out with
        ⟨success, out'⟩
      rw [hresult] at hwritten
      cases success with
      | false => exact hwritten.of_failed _
      | true =>
        rw [encodeUtf16_append]
        refine hwritten.append (ih q.length ?_ q out' rfl)
        rw [← hn, List.length_append]
        exact Nat.lt_add_of_pos_left (List.length_pos_iff.mpr hp)

theorem writeUtf8AsWide_nil (multiByteToWideChar : MultiByteToWideChar) (writer : WideWriter)
    (out : WideOutput) : writeUtf8AsWide multiByteToWideChar writer [] out = (true, out) := by
  rw [writeUtf8AsWide, if_pos rfl]

/-- The units that one call delivers for a piece of the encoding. -/
def pieceUnits (wide : WideSpan) (offset : ℕ) (piece : List Char) : List UInt16 :=
  match wideOffsetOf wide offset, wideOffsetOf wide (offset + (encode piece).length) with
  | some wideBegin, some wideEnd => (wide.text.drop wideBegin).take (wideEnd - wideBegin)
  | _, _ => encodeUtf16 piece

theorem pieceUnits_nil (wide : WideSpan) (offset : ℕ) : pieceUnits wide offset [] = [] := by
  rw [pieceUnits, encode_nil, List.length_nil, Nat.add_zero]
  rcases wideOffsetOf wide offset with _ | index
  · rfl
  · dsimp only
    rw [Nat.sub_self, List.take_zero]

/-- One call, for a piece that lies within the encoding. -/
theorem writeUtf8WithWideAsWide_spec {multiByteToWideChar : MultiByteToWideChar}
    (hconverts : ConvertsUtf8 multiByteToWideChar) (writer : WideWriter) (wide : WideSpan)
    {offset : ℕ} {piece : List Char} (h : wide.first + offset + (encode piece).length ≤ wide.last)
    (out : WideOutput) :
    Delivers writer out (pieceUnits wide offset piece)
      (writeUtf8WithWideAsWide multiByteToWideChar (.bytes (wide.first + offset) (encode piece))
        wide (some writer) out) := by
  have hbegin : ¬wide.first + offset < wide.first := Nat.not_lt.mpr (Nat.le_add_right _ _)
  rw [writeUtf8WithWideAsWide, writeOverlap, if_neg hbegin, if_neg (Nat.not_lt.mpr h)]
  by_cases hne : piece = []
  · subst hne
    rw [encode_nil, List.length_nil, Nat.add_zero, if_neg (Nat.lt_irrefl _), pieceUnits_nil]
    dsimp only
    rw [writeUtf8AsWide_nil]
    exact delivers_nil writer out
  · rw [if_pos (Nat.lt_add_of_pos_right (length_encode_pos hne)), Nat.add_sub_cancel_left,
      Nat.add_assoc, Nat.add_sub_cancel_left, pieceUnits]
    rcases hfirst : wideOffsetOf wide offset with _ | wideBegin
    · exact writeUtf8AsWide_spec hconverts writer piece out
    rcases hlast : wideOffsetOf wide (offset + (encode piece).length) with _ | wideEnd
    · exact writeUtf8AsWide_spec hconverts writer piece out
    simp only [Option.bind_some, Option.map_some]
    rw [Nat.sub_self, List.take_zero, writeUtf8AsWide_nil]
    dsimp only
    rw [← Nat.add_assoc, Nat.add_sub_cancel_left, List.drop_length]
    have hunchanged := writeWideUnchanged_spec writer
      ((wide.text.drop wideBegin).take (wideEnd - wideBegin)) out
    rcases hresult : writeWideUnchanged writer
      ((wide.text.drop wideBegin).take (wideEnd - wideBegin)) out with ⟨success, out'⟩
    rw [hresult] at hunchanged
    cases success with
    | false => exact hunchanged
    | true =>
      dsimp only
      rw [writeUtf8AsWide_nil]
      exact hunchanged

/-- The units that all calls deliver. -/
def piecesUnits (wide : WideSpan) (offset : ℕ) : List (List Char) → List UInt16
  | [] => []
  | piece :: pieces =>
    pieceUnits wide offset piece ++ piecesUnits wide (offset + (encode piece).length) pieces

theorem writePieces_spec {multiByteToWideChar : MultiByteToWideChar}
    (hconverts : ConvertsUtf8 multiByteToWideChar) (writer : WideWriter) (wide : WideSpan)
    (pieces : List (List Char)) {offset : ℕ}
    (h : wide.first + offset + (encode pieces.flatten).length ≤ wide.last) (out : WideOutput) :
    Delivers writer out (piecesUnits wide offset pieces)
      (writePieces multiByteToWideChar writer wide (wide.first + offset) (pieces.map encode)
        out) := by
  induction pieces generalizing offset out with
  | nil => exact delivers_nil writer out
  | cons piece pieces ih =>
    rw [List.flatten_cons, encode_append, List.length_append, ← Nat.add_assoc] at h
    have hpiece := writeUtf8WithWideAsWide_spec hconverts writer wide
      (Nat.le_trans (Nat.le_add_right _ _) h) out
    rw [List.map_cons, writePieces, piecesUnits]
    rcases hresult : writeUtf8WithWideAsWide multiByteToWideChar
      (.bytes (wide.first + offset) (encode piece)) wide (some writer) out with ⟨success, out'⟩
    rw [hresult] at hpiece
    cases success with
    | false => exact hpiece.of_failed _
    | true =>
      dsimp only
      rw [Nat.add_assoc]
      exact hpiece.append (ih (by rwa [Nat.add_assoc wide.first] at h) out')

end Delivery

/-! ### The encoding of a wide text -/

theorem encodeUnits_eq (units : List UInt16) {encoder : Encoder}
    (hencoder : encoder.WellFormed .utf16) :
    encodeUnits encoder units = encode (decodeUtf16 (encoder.pending ++ unitValues units)) := by
  induction units generalizing encoder with
  | nil =>
    rw [encodeUnits, (Encoder.finish_spec hencoder).1, unitValues, List.map_nil, List.append_nil]
    rfl
  | cons unit units ih =>
    obtain ⟨text, hcompletes⟩ := Encoder.put_spec hencoder unit
    have hmeaning : decodeUtf16 (encoder.pending ++ [unit.toUInt32] ++ unitValues units) =
        text ++ decodeUtf16 ((encoder.put .utf16 unit).2.pending ++ unitValues units) :=
      hcompletes.meaning (unitValues units)
    rw [List.append_assoc] at hmeaning
    rw [encodeUnits, hcompletes.bytes, ih hcompletes.wellFormed, ← encode_append, ← hmeaning]
    rfl

theorem encodeWide_eq (wide : List UInt16) :
    encodeWide wide = encode (decodeUtf16 (unitValues wide)) :=
  encodeUnits_eq wide (Encoder.wellFormed_zero _)

/-! ### Without a missed cut -/

theorem le_of_wideOffsetLoop_eq_some {narrowOffset : ℕ} (units : List UInt16) {encoder : Encoder}
    {position index result : ℕ}
    (h : wideOffsetLoop narrowOffset encoder position index units = some result) :
    index ≤ result := by
  induction units generalizing encoder position index with
  | nil =>
    rw [wideOffsetLoop] at h
    split at h
    · exact Nat.le_of_eq (Option.some.inj h)
    · cases h
  | cons unit units ih =>
    rw [wideOffsetLoop] at h
    split at h
    · exact Nat.le_of_eq (Option.some.inj h)
    · exact Nat.le_trans (Nat.le_succ index) (ih h)

/-- A greater offset is not found before a smaller one. -/
theorem wideOffsetLoop_mono {narrowOffset narrowOffset' : ℕ} (hle : narrowOffset ≤ narrowOffset')
    (units : List UInt16) {encoder : Encoder} {position index result result' : ℕ}
    (h : wideOffsetLoop narrowOffset encoder position index units = some result)
    (h' : wideOffsetLoop narrowOffset' encoder position index units = some result') :
    result ≤ result' := by
  induction units generalizing encoder position index with
  | nil =>
    rw [wideOffsetLoop] at h h'
    split at h
    · rw [← Option.some.inj h]
      split at h'
      · exact Nat.le_of_eq (Option.some.inj h')
      · cases h'
    · cases h
  | cons unit units ih =>
    by_cases hfound : position = narrowOffset
    · rw [wideOffsetLoop, if_pos hfound] at h
      rw [← Option.some.inj h]
      exact le_of_wideOffsetLoop_eq_some _ h'
    · rw [wideOffsetLoop, if_neg hfound] at h
      by_cases hpast : narrowOffset < position
      · rw [wideOffsetLoop_eq_none (Nat.lt_of_lt_of_le hpast (Nat.le_add_right _ _))] at h
        cases h
      · rw [wideOffsetLoop, if_neg (by omega)] at h'
        exact ih h h'

theorem drop_eq_slice_append {α : Type} (l : List α) {i j : ℕ} (h : i ≤ j) :
    (l.drop i).take (j - i) ++ l.drop j = l.drop i := by
  conv_rhs => rw [← List.take_append_drop (j - i) (l.drop i)]
  rw [List.drop_drop, Nat.add_sub_cancel' h]

theorem take_append_slice {α : Type} (l : List α) {i j : ℕ} (h : i ≤ j) :
    l.take i ++ (l.drop i).take (j - i) = l.take j := by
  rw [← List.drop_take, ← Nat.min_eq_left h, ← List.take_take, Nat.min_eq_left h,
    List.take_append_drop]

/-- The end of the text is found at its end. -/
theorem wideOffsetOf_end {wide : WideSpan} {index : ℕ}
    (h : wideOffsetOf wide (encode (decodeUtf16 (unitValues wide.text))).length = some index) :
    index = wide.text.length := by
  have hcut : Cut (unitValues wide.text) [] := fun _ _ _ _ _ hnil => by cases hnil
  have hfinds := finds_wideOffsetOf (List.append_nil _).symm hcut
  have hlost : ¬Lost (unitValues wide.text) [] := by
    rintro ⟨before, high, next, after, -, hnil, -⟩
    cases hnil
  obtain ⟨index', hfound, hmarks⟩ := hfinds.found hlost
  rw [h, Nat.zero_add] at hfound
  rw [Option.some.inj hfound]
  rcases hmarks with rfl | ⟨high, v', hnil, -⟩
  · exact List.length_map _
  · cases hnil

/-- Consecutive pieces whose cuts are all found, by induction on the pieces. -/
theorem piecesUnits_eq_drop (wide : WideSpan) (pieces : List (List Char)) (before : List Char)
    (h : decodeUtf16 (unitValues wide.text) = before ++ pieces.flatten)
    (hfound : ∀ l r, pieces = l ++ r →
      wideOffsetOf wide (encode (before ++ l.flatten)).length ≠ none) {index : ℕ}
    (hindex : wideOffsetOf wide (encode before).length = some index) :
    piecesUnits wide (encode before).length pieces = wide.text.drop index := by
  induction pieces generalizing before index with
  | nil =>
    rw [List.flatten_nil, List.append_nil] at h
    rw [← h] at hindex
    rw [piecesUnits, wideOffsetOf_end hindex, List.drop_length]
  | cons piece pieces ih =>
    rw [List.flatten_cons, ← List.append_assoc] at h
    have hpiece := hfound [piece] pieces rfl
    rw [List.flatten_singleton] at hpiece
    obtain ⟨wideEnd, hend⟩ := Option.ne_none_iff_exists'.mp hpiece
    have hrest := ih (before ++ piece) h (fun l r hlr => by
      have hlr' := hfound (piece :: l) r (by rw [hlr, List.cons_append])
      rwa [List.flatten_cons, ← List.append_assoc] at hlr') hend
    have hlength : (encode (before ++ piece)).length =
        (encode before).length + (encode piece).length := by
      rw [encode_append, List.length_append]
    rw [hlength] at hend hrest
    have hle := wideOffsetLoop_mono (Nat.le_add_right _ _) _ hindex hend
    rw [piecesUnits, pieceUnits, hindex, hend, hrest]
    exact drop_eq_slice_append _ hle

/-! ### With a missed cut -/

/-- What a mark adds to the units before a cut is no U+FFFD. -/
theorem Marks.replacements_take {u v : List UInt32} {index : ℕ} (h : Marks u v index) :
    replacements ((u ++ v).take index) = replacements u := by
  rcases h with rfl | ⟨high, v', rfl, hhigh, rfl⟩
  · rw [List.take_left]
  · rw [List.take_length_add_append, replacements_append]
    change replacements u + replacements [high] = replacements u
    rw [replacements_singleton_of_high hhigh, Nat.add_zero]

/-- A converted piece has all its replacement characters. -/
theorem replacements_converted (w : List UInt32) :
    replacements w ≤ replacements (unitValues (encodeUtf16 (decodeUtf16 w))) := by
  rw [replacements_encodeUtf16]
  exact replacements_le_decodeUtf16 w

section Cut

variable {wide : WideSpan} {u w v : List UInt32}

theorem wideOffsetOf_marks (hunits : unitValues wide.text = u ++ v) (hcut : Cut u v) {index : ℕ}
    (h : wideOffsetOf wide (encode (decodeUtf16 u)).length = some index) : Marks u v index := by
  by_cases hlost : Lost u v
  · rw [(finds_wideOffsetOf hunits hcut).lost hlost] at h
    cases h
  · obtain ⟨index', hfound, hmarks⟩ := (finds_wideOffsetOf hunits hcut).found hlost
    rw [h, Nat.zero_add] at hfound
    rwa [Option.some.inj hfound]

/-- No piece loses a unit U+FFFD. -/
theorem replacements_le_pieceUnits (hunits : unitValues wide.text = u ++ (w ++ v))
    (hcut : Cut u (w ++ v)) (hcut' : Cut (u ++ w) v)
    (hdecode : decodeUtf16 (u ++ w) = decodeUtf16 u ++ decodeUtf16 w) :
    replacements w ≤
      replacements
        (unitValues (pieceUnits wide (encode (decodeUtf16 u)).length (decodeUtf16 w))) := by
  rw [pieceUnits]
  rcases hfirst : wideOffsetOf wide (encode (decodeUtf16 u)).length with _ | wideBegin
  · exact replacements_converted w
  rcases hlast : wideOffsetOf wide
    ((encode (decodeUtf16 u)).length + (encode (decodeUtf16 w)).length) with _ | wideEnd
  · exact replacements_converted w
  have hle := wideOffsetLoop_mono (Nat.le_add_right _ _) _ hfirst hlast
  rw [← List.length_append, ← encode_append, ← hdecode] at hlast
  have hunits' := hunits.trans (List.append_assoc u w v).symm
  have hbegin := (wideOffsetOf_marks hunits hcut hfirst).replacements_take
  have hend := (wideOffsetOf_marks hunits' hcut' hlast).replacements_take
  rw [← hunits, unitValues, ← List.map_take] at hbegin
  rw [← hunits', unitValues, ← List.map_take, ← take_append_slice wide.text hle, List.map_append,
    replacements_append, replacements_append, hbegin] at hend
  exact Nat.le_of_eq (Nat.add_left_cancel hend).symm

/-- A piece at whose end the cut is missed gets one more. -/
theorem replacements_lt_pieceUnits (hunits : unitValues wide.text = u ++ (w ++ v))
    (hcut : Cut u (w ++ v)) (hcut' : Cut (u ++ w) v)
    (hdecode : decodeUtf16 (u ++ w) = decodeUtf16 u ++ decodeUtf16 w)
    (hfound : wideOffsetOf wide (encode (decodeUtf16 u)).length ≠ none)
    (hmissed : wideOffsetOf wide (encode (decodeUtf16 (u ++ w))).length = none) :
    replacements w <
      replacements
        (unitValues (pieceUnits wide (encode (decodeUtf16 u)).length (decodeUtf16 w))) := by
  have hunits' := hunits.trans (List.append_assoc u w v).symm
  have hlost : Lost (u ++ w) v := by
    by_contra hlost
    obtain ⟨index, hindex, -⟩ := (finds_wideOffsetOf hunits' hcut').found hlost
    rw [hmissed] at hindex
    cases hindex
  -- the piece is not empty, and so it ends with the unit that is kept
  have hne : w ≠ [] := by
    rintro rfl
    rw [List.append_nil] at hmissed
    exact hfound hmissed
  obtain ⟨before, high, next, after, hconcat, -, hhigh, -⟩ := hlost
  obtain ⟨w', last, rfl⟩ := (List.eq_nil_or_concat w).resolve_left hne
  rw [List.concat_eq_append, ← List.append_assoc] at hconcat
  obtain ⟨-, hlast⟩ := List.append_inj' hconcat rfl
  obtain ⟨rfl, -⟩ := List.cons.inj hlast
  have hconverted : pieceUnits wide (encode (decodeUtf16 u)).length
      (decodeUtf16 (w'.concat last)) = encodeUtf16 (decodeUtf16 (w'.concat last)) := by
    rw [hdecode, encode_append, List.length_append] at hmissed
    rw [pieceUnits, hmissed]
    rcases wideOffsetOf wide (encode (decodeUtf16 u)).length with _ | _ <;> rfl
  rw [hconverted, replacements_encodeUtf16, List.concat_eq_append]
  exact replacements_lt_decodeUtf16 hhigh

end Cut

/-- The piece in front of the characters of some units, as units of its own. -/
theorem exists_cut_of_piece {wide : WideSpan} {u v : List UInt32} {piece rest : List Char}
    (hunits : unitValues wide.text = u ++ v) (hcut : Cut u v)
    (h : decodeUtf16 v = piece ++ rest) :
    ∃ w v', v = w ++ v' ∧ decodeUtf16 w = piece ∧ decodeUtf16 v' = rest ∧ Cut (u ++ w) v' ∧
      decodeUtf16 (u ++ w) = decodeUtf16 u ++ decodeUtf16 w := by
  obtain ⟨w, v', rfl, rfl, rfl⟩ := decodeUtf16_split h
  have hcut' : Cut u w := by
    intro before high low after hu hw
    exact hcut before high low (after ++ v') hu (by rw [hw, List.cons_append])
  refine ⟨w, v', rfl, rfl, rfl, cut_iff.mpr ?_, hcut'.decodeUtf16_append⟩
  rw [List.append_assoc, hcut.decodeUtf16_append, h, ← List.append_assoc,
    hcut'.decodeUtf16_append]

/-- Consecutive pieces lose no unit U+FFFD, by induction on the pieces. -/
theorem replacements_le_piecesUnits {wide : WideSpan} (pieces : List (List Char))
    {u v : List UInt32} (hunits : unitValues wide.text = u ++ v) (hcut : Cut u v)
    (h : decodeUtf16 v = pieces.flatten) :
    replacements v ≤
      replacements (unitValues (piecesUnits wide (encode (decodeUtf16 u)).length pieces)) := by
  induction pieces generalizing u v with
  | nil =>
    rw [decodeUtf16_eq_nil_iff.mp h]
    exact Nat.zero_le _
  | cons piece pieces ih =>
    obtain ⟨w, v', rfl, rfl, hv', hcut', hdecode⟩ := exists_cut_of_piece hunits hcut h
    have hpiece := replacements_le_pieceUnits hunits hcut hcut' hdecode
    have hpieces := ih (hunits.trans (List.append_assoc u w v').symm) hcut' hv'
    rw [hdecode, encode_append, List.length_append] at hpieces
    rw [piecesUnits, unitValues, List.map_append, replacements_append, replacements_append]
    exact Nat.add_le_add hpiece hpieces

/-- They gain one if the cut after some of them is missed. -/
theorem replacements_lt_piecesUnits (wide : WideSpan) (pieces : List (List Char))
    {u v : List UInt32} (hunits : unitValues wide.text = u ++ v) (hcut : Cut u v)
    (h : decodeUtf16 v = pieces.flatten)
    (hfound : wideOffsetOf wide (encode (decodeUtf16 u)).length ≠ none)
    (hmissed : ∃ l r, pieces = l ++ r ∧
      wideOffsetOf wide (encode (decodeUtf16 u ++ l.flatten)).length = none) :
    replacements v <
      replacements (unitValues (piecesUnits wide (encode (decodeUtf16 u)).length pieces)) := by
  induction pieces generalizing u v with
  | nil =>
    obtain ⟨l, r, hnil, hnone⟩ := hmissed
    obtain ⟨rfl, -⟩ := List.append_eq_nil_iff.mp hnil.symm
    rw [List.flatten_nil, List.append_nil] at hnone
    exact absurd hnone hfound
  | cons piece pieces ih =>
    obtain ⟨w, v', rfl, rfl, hv', hcut', hdecode⟩ := exists_cut_of_piece hunits hcut h
    have hunits' := hunits.trans (List.append_assoc u w v').symm
    have hlength : (encode (decodeUtf16 (u ++ w))).length =
        (encode (decodeUtf16 u)).length + (encode (decodeUtf16 w)).length := by
      rw [hdecode, encode_append, List.length_append]
    rw [piecesUnits, unitValues, List.map_append, replacements_append, replacements_append,
      ← hlength]
    by_cases hend : wideOffsetOf wide (encode (decodeUtf16 (u ++ w))).length = none
    · exact Nat.add_lt_add_of_lt_of_le
        (replacements_lt_pieceUnits hunits hcut hcut' hdecode hfound hend)
        (replacements_le_piecesUnits pieces hunits' hcut' hv')
    · refine Nat.add_lt_add_of_le_of_lt (replacements_le_pieceUnits hunits hcut hcut' hdecode)
        (ih hunits' hcut' hv' hend ?_)
      obtain ⟨l, r, hlr, hnone⟩ := hmissed
      rcases l with _ | ⟨first, l⟩
      · rw [List.flatten_nil, List.append_nil] at hnone
        exact absurd hnone hfound
      · obtain ⟨rfl, rfl⟩ := List.cons.inj hlr
        refine ⟨l, r, rfl, ?_⟩
        rwa [List.flatten_cons, ← List.append_assoc, ← hdecode] at hnone

/-! ### The pieces of an encoding -/

/-- The encoding of a wide text at an address. -/
def wideSpanAt (address : ℕ) (wide : List UInt16) : WideSpan :=
  ⟨address, address + (encodeWide wide).length, wide⟩

theorem piecesUnits_eq_iff (address : ℕ) {wide : List UInt16} {pieces : List (List Char)}
    (h : decodeUtf16 (unitValues wide) = pieces.flatten) :
    piecesUnits (wideSpanAt address wide) 0 pieces = wide ↔
      ∀ before after, pieces = before ++ after → ¬Splits (unitValues wide) before.flatten := by
  have hstart : wideOffsetOf (wideSpanAt address wide) 0 = some 0 := by
    cases wide <;> rfl
  have hsplits : ∀ before after, pieces = before ++ after →
      (wideOffsetOf (wideSpanAt address wide) (encode before.flatten).length = none ↔
        Splits (unitValues wide) before.flatten) := by
    rintro before after rfl
    rw [List.flatten_append] at h
    exact wideOffsetOf_eq_none_iff (wideSpanAt address wide) h
  constructor
  · intro hall before after hpieces hsplit
    have hnone := (hsplits before after hpieces).mpr hsplit
    have hlt := replacements_lt_piecesUnits (wideSpanAt address wide) pieces
      (List.nil_append _).symm (fun _ _ _ _ hnil => by simp at hnil) h
      (by rw [decodeUtf16_nil, encode_nil, List.length_nil, hstart]; exact Option.some_ne_none 0)
      ⟨before, after, hpieces, hnone⟩
    rw [decodeUtf16_nil, encode_nil, List.length_nil, hall] at hlt
    exact absurd hlt (Nat.lt_irrefl _)
  · intro hall
    have hdrop := piecesUnits_eq_drop (wideSpanAt address wide) pieces [] h
      (fun l r hlr hnone => hall l r hlr ((hsplits l r hlr).mp hnone)) hstart
    rwa [List.drop_zero] at hdrop

/-- The calls for the pieces of an encoding deliver the units of the pieces. -/
theorem delivers_piecesUnits {multiByteToWideChar : MultiByteToWideChar}
    (hconverts : ConvertsUtf8 multiByteToWideChar) (address : ℕ) {wide : List UInt16}
    {pieces : List (List Char)} (hpieces : (pieces.map encode).flatten = encodeWide wide)
    (writer : WideWriter) :
    Delivers writer ⟨[], []⟩ (piecesUnits (wideSpanAt address wide) 0 pieces)
      (writePieces multiByteToWideChar writer (wideSpanAt address wide) address
        (pieces.map encode) ⟨[], []⟩) := by
  rw [← encode_flatten] at hpieces
  refine writePieces_spec hconverts writer (wideSpanAt address wide) pieces ?_ ⟨[], []⟩
  rw [hpieces]
  exact Nat.le_refl _

/-- For every wide text, every conversion that is right for well-formed text, and every partition of
the encoding at code point boundaries: the calls deliver the wide text unchanged to every writer
that takes all of it, and end at the first chunk that a writer fails to write, if and only if no cut
leaves behind a high surrogate without a partner whose encoding waits for the next unit. -/
theorem delivers_iff {multiByteToWideChar : MultiByteToWideChar}
    (hconverts : ConvertsUtf8 multiByteToWideChar) (address : ℕ) (wide : List UInt16)
    (pieces : List (List Char)) (hpieces : (pieces.map encode).flatten = encodeWide wide) :
    (∀ writer, Delivers writer ⟨[], []⟩ wide (writePieces multiByteToWideChar writer
      (wideSpanAt address wide) address (pieces.map encode) ⟨[], []⟩)) ↔
    ∀ before after, pieces = before ++ after → ¬Splits (unitValues wide) before.flatten := by
  have hcharacters : decodeUtf16 (unitValues wide) = pieces.flatten := by
    rw [← encode_flatten, encodeWide_eq] at hpieces
    exact (encode_inj hpieces).symm
  rw [← piecesUnits_eq_iff address hcharacters]
  constructor
  · intro hall
    exact (delivers_piecesUnits hconverts address hpieces acceptAll).units_eq (hall acceptAll)
  · intro hunits writer
    have hwriter := delivers_piecesUnits hconverts address hpieces writer
    rwa [hunits] at hwriter

/-- The conversion of well-formed text only. -/
def convertWellFormed : MultiByteToWideChar := fun input size =>
  match input.toByteArray.utf8Decode? with
  | none => []
  | some text =>
    if (encodeUtf16 text.toList).length ≤ size then encodeUtf16 text.toList else []

theorem convertsUtf8_convertWellFormed : ConvertsUtf8 convertWellFormed := by
  intro text size hsize
  rw [convertWellFormed, encode_eq_utf8Encode, List.utf8Decode?_utf8Encode]
  exact if_pos hsize

/-- A cut behind a surrogate without a partner that is found, since the text ends there. -/
theorem delivers_iff_at_end : Delivers acceptAll ⟨[], []⟩ [0x41, 0xd800]
    (writePieces convertWellFormed acceptAll (wideSpanAt 0 [0x41, 0xd800]) 0
      ([['A'], [replacement]].map encode) ⟨[], []⟩) :=
  (delivers_iff convertsUtf8_convertWellFormed 0 [0x41, 0xd800] [['A'], [replacement]]
    (by decide)).mpr ((piecesUnits_eq_iff 0 (by decide)).mp (by decide)) acceptAll

/-- After a surrogate without a partner and a letter the cut between their encodings is missed, and
U+FFFD is written instead of the surrogate. -/
theorem not_delivers_of_lost : ¬∀ (multiByteToWideChar : MultiByteToWideChar),
    ConvertsUtf8 multiByteToWideChar → ∀ (address : ℕ) (wide : List UInt16)
      (pieces : List (List Char)), (pieces.map encode).flatten = encodeWide wide →
      ∀ writer, Delivers writer ⟨[], []⟩ wide (writePieces multiByteToWideChar writer
        (wideSpanAt address wide) address (pieces.map encode) ⟨[], []⟩) := by
  intro hall
  have hpieces : ([[replacement], ['A']].map encode).flatten = encodeWide
      [0xd800, 0x41] := by decide
  have hclaimed := hall convertWellFormed convertsUtf8_convertWellFormed 0 [0xd800, 0x41]
    [[replacement], ['A']] hpieces acceptAll
  have hunits := (delivers_piecesUnits convertsUtf8_convertWellFormed 0 hpieces acceptAll).units_eq
    hclaimed
  exact absurd hunits (by decide)

end Utf8

end NgLog
