import NgLog.Symbolize.Sections

/-!
# Reading lines

`LineReader` reads the lines of a file through a buffer that is given to it. A line that is only
partly in the buffer is moved to the front, and more of the file is read after it. A line that fills
the buffer is cut off, and the rest of it is skipped in the file.

Every access to the buffer is checked here, and so are the pointer differences and the assertion.

## Main definitions

* `LineReader`, `LineReader.readLine` — the reader, and `ReadLine`
* `terminatedLines`, `returned` — the lines of a text, and what is returned for a line
* `LineReader.Reads` — the results of calls up to the first that fails

## Main results

* `LineReader.skipRestOfLine_spec`, `LineReader.finishLine_spec` — the parts of a call
* `LineReader.readLine_spec` — a call returns the next line and leaves the rest
* `LineReader.reads_iff` — successive calls return the terminated lines in order
-/

namespace NgLog

namespace Symbolize

variable {platform : Platform} (file : File platform)

/-! ### Buffers -/

/-- The bytes of a buffer from an index up to another. -/
def between (buf : List Byte) (start stop : ℕ) : List Byte := (buf.drop start).take (stop - start)

/-- Reads some bytes of a buffer. -/
def load (buf : List Byte) (start count : ℕ) : Checked (List Byte) :=
  if start + count ≤ buf.length then .ok ((buf.drop start).take count) else .error .bounds

/-- Writes some bytes to a buffer. -/
def store (buf : List Byte) (start : ℕ) (data : List Byte) : Checked (List Byte) :=
  if start + data.length ≤ buf.length then
    .ok (buf.take start ++ data ++ buf.drop (start + data.length))
  else .error .bounds

/-- `ReadFromOffset` into a range of a buffer: the number of bytes and the buffer; `none` for an
error or if there are none. -/
def readInto (buf : List Byte) (start count offset : ℕ) : Checked (Option (ℕ × List Byte)) :=
  if start + count ≤ buf.length then
    match readFromOffset file count offset with
    | none => pure none
    | some data =>
      if data.length = 0 then pure none
      else do
        let buf ← store buf start data
        pure (some (data.length, buf))
  else .error .bounds

/-! ### The reader -/

/-- `'\n'`. -/
def lineFeed : Byte := 10

/-- `kSkipChunkSize`. -/
def kSkipChunkSize : ℕ := 256

/-- `LineReader`, with pointers into the buffer as indices. The end of a line is missing for a null
pointer. -/
structure LineReader where
  buf : List Byte
  offset : ℕ
  bol : ℕ
  eol : Option ℕ
  eod : ℕ
  truncated : Bool

namespace LineReader

/-- The constructor. -/
def initial (buf : List Byte) (offset : ℕ) : LineReader :=
  { buf := buf, offset := offset, bol := 0, eol := some 0, eod := 0, truncated := false }

/-- `FindLineFeed`. -/
def findLineFeed (reader : LineReader) : Checked (Option ℕ) := do
  let count ← subtract reader.eod reader.bol
  let data ← load reader.buf reader.bol count
  pure ((data.findIdx? (· = lineFeed)).map (reader.bol + ·))

/-- `BufferIsEmpty`. -/
def bufferIsEmpty (reader : LineReader) : Bool := reader.eod = 0

/-- `HasCompleteLine`. -/
def hasCompleteLine (reader : LineReader) : Checked Bool :=
  if reader.bufferIsEmpty then pure false
  else do
    let eol ← reader.findLineFeed
    pure eol.isSome

theorem length_readFromOffset_le {count offset : ℕ} {data : List Byte}
    (h : readFromOffset file count offset = some data) :
    data.length ≤ file.contents.length - offset ∧
      data = (file.contents.drop offset).take count := by
  rw [readFromOffset_eq] at h
  split at h
  · cases h
  · obtain rfl := Option.some.inj h
    refine ⟨?_, rfl⟩
    rw [List.length_take, List.length_drop]
    exact Nat.min_le_right _ _

/-- `SkipRestOfLine`: whether there is a line feed, and the offset after it. -/
def skipRestOfLine (offset : ℕ) : Checked (Bool × ℕ) :=
  match _hread : readFromOffset file kSkipChunkSize offset with
  | none => .ok (false, offset)
  | some chunk =>
    if chunk.length = 0 then .ok (false, offset)
    else
      match chunk.findIdx? (· = lineFeed) with
      | some feed => do
        let next ← add platform.sizeMax offset (feed + 1)
        pure (true, next)
      | none =>
        if offset + chunk.length ≤ platform.sizeMax then skipRestOfLine (offset + chunk.length)
        else .error .wrap
  termination_by file.contents.length - offset
  decreasing_by
    have hle := (length_readFromOffset_le file _hread).1
    omega

/-- The end of `ReadLine`, once the line begins at `bol`. -/
def finishLine (reader : LineReader) : Checked (Bool × LineReader) := do
  match ← reader.findLineFeed with
  | some eol =>
    let buf ← store reader.buf eol [0]
    pure (true, { reader with buf := buf, eol := some eol })
  | none =>
    if reader.bol ≠ 0 ∨ reader.eod ≠ reader.buf.length then
      pure (false, { reader with eol := none })
    else
      match ← skipRestOfLine file reader.offset with
      | (false, offset) => pure (false, { reader with eol := none, offset := offset })
      | (true, offset) =>
        let eol ← subtract reader.buf.length 1
        let buf ← store reader.buf eol [0]
        pure (true,
          { reader with buf := buf, eol := some eol, offset := offset, truncated := true })

/-- Reading on in `ReadLine`, with the line that begins in the buffer at its front: the rest of
`ReadLine` after it. -/
def refill (reader : LineReader) (lineLength : ℕ) : Checked (Bool × LineReader) := do
  let capacityLeft ← subtract reader.buf.length lineLength
  match ← readInto file reader.buf lineLength capacityLeft reader.offset with
  | none => pure (false, reader)
  | some (numBytes, buf) =>
    let offset ← add platform.sizeMax reader.offset numBytes
    finishLine file
      { reader with buf := buf, offset := offset, eod := lineLength + numBytes, bol := 0 }

/-- The rest of `ReadLine` once `bol` is at the next line in the buffer. -/
def continueLine (reader : LineReader) : Checked (Bool × LineReader) := do
  if ← reader.hasCompleteLine then finishLine file reader
  else
    let incompleteLineLength ← subtract reader.eod reader.bol
    let line ← load reader.buf reader.bol incompleteLineLength
    let buf ← store reader.buf 0 line
    refill file { reader with buf := buf } incompleteLineLength

/-- `ReadLine`: whether it succeeds, and the reader after it. -/
def readLine (reader : LineReader) : Checked (Bool × LineReader) :=
  if reader.bufferIsEmpty then refill file { reader with truncated := false } 0
  else
    match reader.eol with
    | none => .error .bounds
    | some eol =>
      if eol + 1 ≤ reader.eod then
        continueLine file { reader with truncated := false, bol := eol + 1 }
      else .error .assertion

/-- The line that `ReadLine` gives, from `bol` to `eol`. -/
def line (reader : LineReader) : List Byte :=
  match reader.eol with
  | some eol => between reader.buf reader.bol eol
  | none => []

/-- The results of successive calls of `ReadLine` up to the first that fails: lines, and whether
they are truncated. -/
inductive Reads : LineReader → List (List Byte × Bool) → Prop
  | done {reader after : LineReader} :
      readLine file reader = .ok (false, after) → Reads reader []
  | line {reader after : LineReader} {results : List (List Byte × Bool)} :
      readLine file reader = .ok (true, after) → Reads after results →
        Reads reader ((after.line, after.truncated) :: results)

end LineReader

/-! ### Lines -/

/-- The lines of a text that end with a line feed. -/
def terminatedLines (text : List Byte) : List (List Byte) := (text.splitOn lineFeed).dropLast

/-- What is returned for a line: all of it if it is shorter than the buffer, or else as much as the
buffer holds before a terminator. -/
def returned (bufLen : ℕ) (line : List Byte) : List Byte × Bool :=
  if line.length < bufLen then (line, false) else (line.take (bufLen - 1), true)

theorem terminatedLines_of_not_mem {text : List Byte} (h : lineFeed ∉ text) :
    terminatedLines text = [] := by
  rw [terminatedLines, List.splitOn_eq_singleton h]
  rfl

theorem terminatedLines_append {line : List Byte} (h : lineFeed ∉ line) (rest : List Byte) :
    terminatedLines (line ++ lineFeed :: rest) = line :: terminatedLines rest := by
  rw [terminatedLines, List.splitOn_append_cons_self_of_not_mem h,
    List.dropLast_cons_of_ne_nil (List.splitOn_ne_nil _ _), terminatedLines]

/-! ### What a call returns -/

namespace LineReader

variable {file}

/-- The first line feed, if there is one. -/
theorem findIdx?_lineFeed (data : List Byte) :
    (∃ line rest, data = line ++ lineFeed :: rest ∧ lineFeed ∉ line ∧
      data.findIdx? (· = lineFeed) = some line.length) ∨
    (lineFeed ∉ data ∧ data.findIdx? (· = lineFeed) = none) := by
  rcases hfind : data.findIdx? (· = lineFeed) with _ | index
  · refine Or.inr ⟨fun hmem => ?_, rfl⟩
    have hnone := List.findIdx?_eq_none_iff.mp hfind lineFeed hmem
    exact absurd rfl (of_decide_eq_false hnone)
  · obtain ⟨hlt, hat, hbefore⟩ := List.findIdx?_eq_some_iff_getElem.mp hfind
    refine Or.inl ⟨data.take index, data.drop (index + 1), ?_, ?_, ?_⟩
    · rw [← of_decide_eq_true hat, List.getElem_cons_drop, List.take_append_drop]
    · intro hmem
      obtain ⟨i, hi, heq⟩ := List.mem_take_iff_getElem.mp hmem
      exact hbefore i (by omega) (decide_eq_true heq)
    · rw [List.length_take, Nat.min_eq_left (Nat.le_of_lt hlt)]

/-- A read delivers what there is, up to its count. -/
theorem readFromOffset_cases (file : File platform) (offset : ℕ) {count : ℕ}
    (hcount : count ≤ platform.kMaxReadCount) :
    (file.contents.drop offset = [] ∧
      (readFromOffset file count offset = none ∨ readFromOffset file count offset = some [])) ∨
    (offset < file.contents.length ∧
      readFromOffset file count offset = some ((file.contents.drop offset).take count)) := by
  have hlength := file.length_le
  rw [readFromOffset_eq]
  rcases Nat.lt_or_ge offset file.contents.length with hlt | hge
  · exact Or.inr ⟨hlt, if_neg (by omega)⟩
  · refine Or.inl ⟨List.drop_eq_nil_of_le hge, ?_⟩
    rw [List.drop_eq_nil_of_le hge, List.take_nil]
    split
    · exact Or.inl rfl
    · exact Or.inr rfl

/-- What is read and what follows it. -/
theorem drop_eq_take_append (l : List Byte) (count offset : ℕ) :
    l.drop offset = (l.drop offset).take count ++
      l.drop (offset + ((l.drop offset).take count).length) := by
  rw [← List.drop_drop, List.length_take]
  rcases Nat.le_total count (l.drop offset).length with hle | hle
  · rw [Nat.min_eq_left hle, List.take_append_drop]
  · rw [Nat.min_eq_right hle, List.drop_length, List.take_of_length_le hle, List.append_nil]

/-- The skipping loop, by induction on the bytes of the file that are left. -/
theorem skipRestOfLine_spec (file : File platform) (offset : ℕ) :
    (∃ line rest, file.contents.drop offset = line ++ lineFeed :: rest ∧ lineFeed ∉ line ∧
      skipRestOfLine file offset = .ok (true, offset + (line.length + 1))) ∨
    (lineFeed ∉ file.contents.drop offset ∧
      ∃ stop, skipRestOfLine file offset = .ok (false, stop)) := by
  have hmax := length_le_sizeMax file
  have hchunk : kSkipChunkSize ≤ platform.kMaxReadCount :=
    Nat.le_trans (by decide) platform.le_kMaxFileOffset
  induction hleft : file.contents.length - offset using Nat.strongRecOn generalizing offset with
  | _ left ih =>
    rw [skipRestOfLine]
    rcases readFromOffset_cases file offset hchunk with
      ⟨hnil, hread | hread⟩ | ⟨hlt, hread⟩
    · refine Or.inr ⟨by rw [hnil]; exact List.not_mem_nil, offset, ?_⟩
      split
      · rfl
      · rename_i hsome
        cases hread.symm.trans hsome
    · refine Or.inr ⟨by rw [hnil]; exact List.not_mem_nil, offset, ?_⟩
      split
      · rfl
      · rename_i hsome
        obtain rfl := Option.some.inj (hread.symm.trans hsome)
        rfl
    · split
      · rename_i hnone
        cases hread.symm.trans hnone
      rename_i chunk hsome
      obtain rfl := Option.some.inj (hread.symm.trans hsome)
      have hlength : ((file.contents.drop offset).take kSkipChunkSize).length =
          min kSkipChunkSize (file.contents.length - offset) := by
        rw [List.length_take, List.length_drop]
      have hpos : 0 < kSkipChunkSize := by decide
      have hsplit := drop_eq_take_append file.contents kSkipChunkSize offset
      rw [if_neg (by omega)]
      generalize (file.contents.drop offset).take kSkipChunkSize = chunk at *
      rcases findIdx?_lineFeed chunk with ⟨line, rest, rfl, hline, hfind⟩ | ⟨hnot, hfind⟩
      · rw [hfind]
        dsimp only
        rw [List.length_append, List.length_cons] at hlength
        rw [add_of_le (by omega), ok_bind]
        refine Or.inl ⟨line,
          rest ++ file.contents.drop (offset + (line ++ lineFeed :: rest).length),
          hsplit.trans ?_, hline, rfl⟩
        rw [List.append_assoc, List.cons_append]
      · rw [hfind, hsplit]
        dsimp only
        rw [if_pos (by omega)]
        rcases ih (file.contents.length - (offset + chunk.length)) (by omega)
          (offset + chunk.length) rfl with ⟨line, rest, hrest, hline, hskip⟩ | ⟨hrest, hskip⟩
        · refine Or.inl ⟨chunk ++ line, rest, ?_, ?_, ?_⟩
          · rw [hrest, List.append_assoc]
          · exact fun hmem => (List.mem_append.mp hmem).elim hnot hline
          · rw [hskip, List.length_append, Nat.add_assoc, Nat.add_assoc]
        · exact Or.inr ⟨fun hmem => (List.mem_append.mp hmem).elim hnot hrest, hskip⟩

/-! #### The buffer -/

theorem store_of_le {buf data : List Byte} {start : ℕ} (h : start + data.length ≤ buf.length) :
    store buf start data = .ok (buf.take start ++ data ++ buf.drop (start + data.length)) :=
  if_pos h

/-- A terminator that is written to the buffer. -/
theorem store_nul {buf : List Byte} {eol : ℕ} (h : eol < buf.length) :
    store buf eol [0] = .ok (buf.set eol 0) := by
  rw [store_of_le (by rw [List.length_singleton]; omega), List.set_eq_take_append_cons_drop,
    if_pos h, List.append_assoc]
  rfl

theorem between_set_before {buf : List Byte} {bol eol : ℕ} (h : bol ≤ eol) (b : Byte) :
    between (buf.set eol b) bol eol = between buf bol eol := by
  rw [between, between, List.drop_set, if_neg (Nat.not_lt.mpr h),
    List.take_set_of_le (Nat.le_refl _)]

theorem between_set_after {buf : List Byte} {eol : ℕ} (b : Byte) (eod : ℕ) :
    between (buf.set eol b) (eol + 1) eod = between buf (eol + 1) eod := by
  rw [between, between, List.drop_set_of_lt (Nat.lt_succ_self eol)]

theorem length_between {buf : List Byte} {stop : ℕ} (h : stop ≤ buf.length) (start : ℕ) :
    (between buf start stop).length = stop - start := by
  rw [between, List.length_take, List.length_drop]
  omega

/-- A part of the buffer, from a position in it on. -/
theorem between_append {buf line rest : List Byte} {start stop : ℕ}
    (h : between buf start stop = line ++ rest) :
    between buf start (start + line.length) = line ∧
      between buf (start + line.length) stop = rest := by
  have hlength := congrArg List.length h
  rw [between, List.length_take, List.length_append] at hlength
  constructor
  · have htake := congrArg (List.take line.length) h
    rw [between, List.take_take, List.take_left, Nat.min_eq_left (by omega)] at htake
    rw [between, Nat.add_sub_cancel_left, htake]
  · have hdrop := congrArg (List.drop line.length) h
    rw [between, List.drop_take, List.drop_drop, List.drop_left] at hdrop
    rw [between, ← hdrop]
    congr 1
    omega

/-! #### A call -/

/-- What is still to be read: nothing was read yet, or the line before ends in the buffer and the
rest of the buffer and of the file follow it. -/
structure Ready (file : File platform) (bufLen : ℕ) (reader : LineReader) (text : List Byte) :
    Prop where
  length : reader.buf.length = bufLen
  position : (reader.eod = 0 ∧ text = file.contents.drop reader.offset) ∨
    ∃ eol, reader.eol = some eol ∧ eol < reader.eod ∧ reader.eod ≤ bufLen ∧
      text = between reader.buf (eol + 1) reader.eod ++ file.contents.drop reader.offset

/-- A call on a text returns its first line and leaves the rest, or fails if there is no terminated
line. -/
def Continues (file : File platform) (bufLen : ℕ) (text : List Byte)
    (result : Checked (Bool × LineReader)) : Prop :=
  (∃ line rest after, text = line ++ lineFeed :: rest ∧ lineFeed ∉ line ∧
    result = .ok (true, after) ∧ Ready file bufLen after rest ∧
    (after.line, after.truncated) = returned bufLen line) ∨
  (lineFeed ∉ text ∧ ∃ after, result = .ok (false, after))

theorem findLineFeed_eq {reader : LineReader} (hbol : reader.bol ≤ reader.eod)
    (heod : reader.eod ≤ reader.buf.length) :
    reader.findLineFeed = .ok (((between reader.buf reader.bol reader.eod).findIdx?
      (· = lineFeed)).map (reader.bol + ·)) := by
  rw [findLineFeed, subtract_of_le hbol, ok_bind, load, if_pos (by omega), ok_bind]
  rfl

/-- The end of a call, with a line in the buffer or all of the buffer or of the file read. -/
theorem finishLine_spec (file : File platform) (reader : LineReader)
    (hbol : reader.bol ≤ reader.eod) (heod : reader.eod ≤ reader.buf.length)
    (hpos : 0 < reader.buf.length) (htruncated : reader.truncated = false)
    (hread : lineFeed ∈ between reader.buf reader.bol reader.eod ∨
      reader.bol = 0 ∧ (reader.eod = reader.buf.length ∨
        file.contents.drop reader.offset = [])) :
    Continues file reader.buf.length
      (between reader.buf reader.bol reader.eod ++ file.contents.drop reader.offset)
      (finishLine file reader) := by
  have hlength := length_between heod reader.bol
  rw [finishLine, findLineFeed_eq hbol heod, ok_bind]
  generalize hdata : between reader.buf reader.bol reader.eod = data at *
  rcases findIdx?_lineFeed data with ⟨line, rest, rfl, hline, hfind⟩ | ⟨hnot, hfind⟩
  · rw [hfind, Option.map_some]
    dsimp only
    rw [List.length_append, List.length_cons] at hlength
    obtain ⟨hbefore, hafter⟩ := between_append hdata
    have hrest : between reader.buf (reader.bol + line.length + 1) reader.eod = rest :=
      (between_append (hafter.trans (List.singleton_append).symm)).2
    have hle : reader.bol ≤ reader.bol + line.length := Nat.le_add_right _ _
    rw [store_nul (by omega), ok_bind]
    refine Or.inl ⟨line, rest ++ file.contents.drop reader.offset, _, ?_, hline, rfl,
      ⟨?_, Or.inr ⟨_, rfl, ?_, heod, ?_⟩⟩, ?_⟩
    · rw [List.append_assoc, List.cons_append]
    · rw [List.length_set]
    · dsimp only
      omega
    · dsimp only
      rw [between_set_after]
      exact congrArg (· ++ _) hrest.symm
    · rw [returned, if_pos (by omega), LineReader.line]
      dsimp only
      rw [between_set_before hle, hbefore, htruncated]
  · rw [hfind, Option.map_none]
    dsimp only
    obtain ⟨hzero, hfull⟩ := hread.resolve_left hnot
    by_cases heq : reader.eod = reader.buf.length
    · rw [if_neg (by omega)]
      rcases skipRestOfLine_spec file reader.offset with
        ⟨line, rest, hrest, hline, hskip⟩ | ⟨hrest, stop, hskip⟩
      · rw [hskip, ok_bind]
        dsimp only
        rw [subtract_of_le hpos, ok_bind, store_nul (by omega), ok_bind]
        have hlast : reader.bol ≤ reader.buf.length - 1 := by omega
        have hend : reader.buf.length - 1 + 1 = reader.eod := by omega
        have hnext : rest = file.contents.drop (reader.offset + (line.length + 1)) := by
          have hafter : (line ++ [lineFeed]).length = line.length + 1 := List.length_append
          rw [← List.drop_drop, hrest, ← List.singleton_append, ← List.append_assoc,
            List.drop_left' hafter]
        refine Or.inl ⟨data ++ line, rest, _, ?_, ?_, rfl, ⟨?_, Or.inr ⟨_, rfl, ?_, ?_, ?_⟩⟩, ?_⟩
        · rw [hrest, List.append_assoc]
        · exact fun hmem => (List.mem_append.mp hmem).elim hnot hline
        · rw [List.length_set]
        · dsimp only
          omega
        · exact heod
        · dsimp only
          rw [between_set_after, hend, between, Nat.sub_self, List.take_zero,
            List.nil_append, hnext]
        · have hlong : reader.buf.length ≤ (data ++ line).length := by
            rw [List.length_append]
            omega
          rw [returned, if_neg (Nat.not_lt.mpr hlong), LineReader.line]
          dsimp only
          rw [between_set_before hlast, List.take_append_of_le_length (by omega), ← hdata, between,
            between, List.take_take, hzero, Nat.sub_zero, Nat.sub_zero,
            Nat.min_eq_left (by omega)]
      · rw [hskip, ok_bind]
        exact Or.inr ⟨fun hmem => (List.mem_append.mp hmem).elim hnot hrest, _, rfl⟩
    · rw [if_pos (Or.inr heq), hfull.resolve_left heq, List.append_nil]
      exact Or.inr ⟨hnot, _, rfl⟩

/-- Reading on, with the beginning of a line at the front of the buffer. -/
theorem refill_spec (file : File platform) (reader : LineReader) (lineLength : ℕ)
    (hline : lineLength < reader.buf.length)
    (hmax : reader.buf.length ≤ platform.kMaxReadCount) (htruncated : reader.truncated = false)
    (hnot : lineFeed ∉ reader.buf.take lineLength) :
    Continues file reader.buf.length
      (reader.buf.take lineLength ++ file.contents.drop reader.offset)
      (refill file reader lineLength) := by
  have hsize := length_le_sizeMax file
  rw [refill, subtract_of_le (Nat.le_of_lt hline), ok_bind, readInto, if_pos (by omega)]
  have hcapacity : reader.buf.length - lineLength ≤ platform.kMaxReadCount := by omega
  rcases readFromOffset_cases file reader.offset hcapacity with
    ⟨hnil, hread | hread⟩ | ⟨hlt, hread⟩
  · rw [hread, hnil, List.append_nil]
    exact Or.inr ⟨hnot, _, rfl⟩
  · rw [hread, hnil, List.append_nil]
    exact Or.inr ⟨hnot, _, rfl⟩
  · have hsplit := drop_eq_take_append file.contents (reader.buf.length - lineLength) reader.offset
    have hlength : ((file.contents.drop reader.offset).take
        (reader.buf.length - lineLength)).length =
        min (reader.buf.length - lineLength) (file.contents.length - reader.offset) := by
      rw [List.length_take, List.length_drop]
    generalize (file.contents.drop reader.offset).take (reader.buf.length - lineLength) = data at *
    rw [hread]
    dsimp only
    rw [if_neg (by omega), store_of_le (by omega), ok_bind]
    change Continues _ _ _ ((add platform.sizeMax reader.offset data.length) >>= _)
    rw [add_of_le (by omega), ok_bind]
    generalize hbuf : reader.buf.take lineLength ++ data ++
      reader.buf.drop (lineLength + data.length) = buf
    have hbufLength : buf.length = reader.buf.length := by
      rw [← hbuf, List.length_append, List.length_append, List.length_take, List.length_drop]
      omega
    have hfilled : between buf 0 (lineLength + data.length) =
        reader.buf.take lineLength ++ data := by
      rw [between, List.drop_zero, ← hbuf, List.take_left']
      rw [List.length_append, List.length_take]
      omega
    have hfinish := finishLine_spec file
      { reader with
        buf := buf
        offset := reader.offset + data.length
        eod := lineLength + data.length
        bol := 0 }
      (Nat.zero_le _) (by dsimp only; omega) (by dsimp only; omega) htruncated (Or.inr ⟨rfl, ?_⟩)
    · dsimp only at hfinish
      rw [hbufLength, hfilled, List.append_assoc, ← hsplit] at hfinish
      exact hfinish
    · dsimp only
      rw [hbufLength]
      rcases Nat.le_total (reader.buf.length - lineLength)
        (file.contents.length - reader.offset) with hfull | hend
      · exact Or.inl (by omega)
      · exact Or.inr (List.drop_eq_nil_of_le (by omega))

/-- A call with the next line in the buffer, or a part of it. -/
theorem continueLine_spec (file : File platform) (reader : LineReader) (hfront : 0 < reader.bol)
    (hbol : reader.bol ≤ reader.eod) (heod : reader.eod ≤ reader.buf.length)
    (hmax : reader.buf.length ≤ platform.kMaxReadCount) (htruncated : reader.truncated = false) :
    Continues file reader.buf.length
      (between reader.buf reader.bol reader.eod ++ file.contents.drop reader.offset)
      (continueLine file reader) := by
  have hnonempty : ¬reader.bufferIsEmpty = true := fun hempty => by
    have hzero := of_decide_eq_true hempty
    omega
  have hlength := length_between heod reader.bol
  have hload : load reader.buf reader.bol (reader.eod - reader.bol) =
      .ok (between reader.buf reader.bol reader.eod) := if_pos (by omega)
  rw [continueLine, hasCompleteLine, if_neg hnonempty, findLineFeed_eq hbol heod, ok_bind]
  rcases findIdx?_lineFeed (between reader.buf reader.bol reader.eod) with
    ⟨line, rest, heq, -, hfind⟩ | ⟨hnot, hfind⟩
  · rw [hfind]
    have hmem : lineFeed ∈ between reader.buf reader.bol reader.eod := by
      rw [heq]
      exact List.mem_append_right _ List.mem_cons_self
    exact finishLine_spec file reader hbol heod (by omega) htruncated (Or.inl hmem)
  · rw [hfind]
    change Continues _ _ _ (subtract reader.eod reader.bol >>= _)
    rw [subtract_of_le hbol, ok_bind, hload, ok_bind, store_of_le (by omega), ok_bind]
    generalize hdata : between reader.buf reader.bol reader.eod = data at *
    rw [List.take_zero, List.nil_append, Nat.zero_add, hlength]
    have hmoved : (data ++ reader.buf.drop (reader.eod - reader.bol)).length =
        reader.buf.length := by
      rw [List.length_append, List.length_drop]
      omega
    have hrefill := refill_spec file
      { reader with buf := data ++ reader.buf.drop (reader.eod - reader.bol) }
      (reader.eod - reader.bol) (by dsimp only; omega) (by dsimp only; omega)
      htruncated (by rwa [List.take_left' hlength])
    dsimp only at hrefill
    rw [hmoved, List.take_left' hlength] at hrefill
    exact hrefill

/-- A call returns the next line and leaves the rest. -/
theorem readLine_spec {bufLen : ℕ} (hpos : 0 < bufLen) (hmax : bufLen ≤ platform.kMaxReadCount)
    {reader : LineReader} {text : List Byte} (h : Ready file bufLen reader text) :
    Continues file bufLen text (readLine file reader) := by
  obtain ⟨rfl, ⟨heod, rfl⟩ | ⟨eol, heol, hlt, hle, rfl⟩⟩ := h
  · rw [readLine, bufferIsEmpty, decide_eq_true heod, if_pos rfl]
    exact refill_spec file { reader with truncated := false } 0 hpos hmax rfl
      List.not_mem_nil
  · have hnonempty : ¬reader.bufferIsEmpty = true := fun hempty => by
      have hzero := of_decide_eq_true hempty
      omega
    rw [readLine, if_neg hnonempty, heol]
    dsimp only
    rw [if_pos (Nat.succ_le_of_lt hlt)]
    exact continueLine_spec file { reader with truncated := false, bol := eol + 1, eol := some eol }
      (Nat.succ_pos eol) hlt hle hmax rfl

theorem ready_initial (file : File platform) (buf : List Byte) (offset : ℕ) :
    Ready file buf.length (initial buf offset) (file.contents.drop offset) :=
  ⟨rfl, Or.inl ⟨rfl, rfl⟩⟩

/-- Successive calls, by induction on the bytes that are left. -/
theorem reads_of_ready {bufLen : ℕ} (hpos : 0 < bufLen) (hmax : bufLen ≤ platform.kMaxReadCount)
    {reader : LineReader} {text : List Byte} (h : Ready file bufLen reader text) :
    Reads file reader ((terminatedLines text).map (returned bufLen)) := by
  induction hleft : text.length using Nat.strongRecOn generalizing reader text with
  | _ left ih =>
    rcases readLine_spec hpos hmax h with
      ⟨line, rest, after, rfl, hline, hread, hafter, hreturned⟩ | ⟨hnot, after, hread⟩
    · rw [terminatedLines_append hline, List.map_cons, ← hreturned]
      rw [List.length_append, List.length_cons] at hleft
      exact .line hread (ih rest.length (by omega) hafter rfl)
    · rw [terminatedLines_of_not_mem hnot]
      exact .done hread

theorem Reads.unique {reader : LineReader} {first second : List (List Byte × Bool)}
    (hfirst : Reads file reader first) (hsecond : Reads file reader second) : first = second := by
  induction hfirst generalizing second with
  | done hread =>
    cases hsecond with
    | done _ => rfl
    | line hread' _ => cases hread.symm.trans hread'
  | line hread _ ih =>
    cases hsecond with
    | done hread' => cases hread.symm.trans hread'
    | line hread' hrest =>
      obtain ⟨-, rfl⟩ := Prod.mk.inj (Except.ok.inj (hread.symm.trans hread'))
      rw [ih hrest]

/-- For every file, every buffer of at least two bytes and every offset, successive calls return the
terminated lines from the offset on, in order, up to the first that fails. No call comes to a
fault. (An array is never larger than a difference of pointers can be.) -/
theorem reads_iff (file : File platform) (buf : List Byte) (offset : ℕ) (hlen : 2 ≤ buf.length)
    (hmax : buf.length ≤ platform.kMaxReadCount) (results : List (List Byte × Bool)) :
    Reads file (initial buf offset) results ↔
      results = (terminatedLines (file.contents.drop offset)).map (returned buf.length) := by
  have hreads := reads_of_ready (by omega) hmax (ready_initial file buf offset)
  constructor
  · intro h
    exact h.unique hreads
  · rintro rfl
    exact hreads

/-- A line that fits, one that is cut off, and one that does not end. -/
theorem reads_iff_three :
    Reads (.ofContents (bytes "ab\ncdef\ng") (by decide) : File ⟨.bits64, true⟩)
      (initial [0, 0, 0, 0] 0) [(bytes "ab", false), (bytes "cde", true)] :=
  (reads_iff _ [0, 0, 0, 0] 0 (by decide)
    (Nat.le_trans (by decide) (Platform.le_kMaxFileOffset _)) _).mpr (by decide)

end LineReader

end Symbolize

end NgLog
