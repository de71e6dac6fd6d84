import NgLog.SourceLocation.DisplayPath

/-!
# Frames of a stack trace

The symbolizer puts the file and the line of a frame before or behind the name of its function and
says where they are. `FormatSymbolizedFrame` moves them to the front and shortens the path. It
appends to the buffer piece by piece, each cut to the room that is left, and keeps a terminator
behind what it has written.

## Main definitions

* `readSpan`, `strlen` — reads that fail out of bounds
* `Buffer.appendText` — the pieces
* `formatSymbolizedFrame` — the function

## Main results

* `Buffer.HoldsText.appendText` — the buffer holds the pieces so far, cut to its size
* `frames_in_bounds` — the paths and the frames stay within their buffers
-/

namespace NgLog

/-! ### Pieces -/

/-- `append`. -/
def Buffer.appendText (outSize : ℕ) (text : List Byte) (buffer : Buffer) : Option Buffer := do
  let available := outSize - 1 - buffer.written.length
  let count := min text.length available
  let buffer ← buffer.append (text.take count)
  buffer.terminate

variable {pieces out : List Byte} {buffer : Buffer} {outSize : ℕ}

/-- The buffer holds the pieces, cut to its size, and a terminator behind them. -/
structure Buffer.HoldsText (outSize : ℕ) (pieces : List Byte) (buffer : Buffer) : Prop where
  written_eq : buffer.written = pieces.take (outSize - 1)
  length_eq : buffer.written.length + buffer.rest.length = outSize
  terminated : buffer.rest.head? = some 0

theorem Buffer.holdsText_nil (h : 0 < out.length) :
    ∃ buffer, Buffer.terminate ⟨[], out⟩ = some buffer ∧ buffer.HoldsText out.length [] := by
  refine ⟨_, Buffer.terminate_run h, by simp, ?_, rfl⟩
  simp only [List.length_nil, List.length_cons, List.length_drop]
  omega

/-- A piece is cut to the room that is left before the terminator. -/
theorem Buffer.HoldsText.appendText (h : buffer.HoldsText outSize pieces) (text : List Byte) :
    ∃ after, buffer.appendText outSize text = some after ∧ after.HoldsText outSize
      (pieces ++ text) := by
  have hlength := h.length_eq
  have hroom : 0 < buffer.rest.length := by
    obtain ⟨rest, hrest⟩ := List.head?_eq_some_iff.mp h.terminated
    simp [hrest]
  have hcount : (text.take (outSize - 1 - buffer.written.length)).length + 1 ≤
      buffer.rest.length := by
    rw [List.length_take]
    omega
  have hafter :
    0 < (buffer.advance (text.take (outSize - 1 - buffer.written.length))).rest.length := by
    rw [Buffer.length_advance]
    omega
  have hrun : buffer.appendText outSize text = some
      ⟨(buffer.advance (text.take (outSize - 1 - buffer.written.length))).written,
        0 :: (buffer.advance (text.take (outSize - 1 - buffer.written.length))).rest.drop 1⟩ := by
    simp only [Buffer.appendText, take_min, Option.bind_eq_bind]
    rw [Buffer.append_run (by omega), Option.bind_some]
    exact Buffer.terminate_run hafter
  refine ⟨_, hrun, ?_, ?_, rfl⟩
  · have hcut : outSize - 1 - (pieces.take (outSize - 1)).length = outSize - 1 - pieces.length := by
      rw [List.length_take]
      omega
    rw [Buffer.advance, h.written_eq, List.take_append, hcut]
  · simp only [Buffer.advance, List.length_append, List.length_cons, List.length_drop]
    omega

/-- The buffer holds a text and a terminator. -/
theorem Buffer.HoldsText.contents (h : buffer.HoldsText outSize pieces) :
    ∃ rest, buffer.contents = pieces.take (outSize - 1) ++ 0 :: rest ∧
      buffer.contents.length = outSize := by
  obtain ⟨rest, hrest⟩ := List.head?_eq_some_iff.mp h.terminated
  refine ⟨rest, ?_, ?_⟩
  · rw [Buffer.contents, h.written_eq, hrest]
  · rw [Buffer.contents, List.length_append, h.length_eq]

namespace SourceLocation

/-! ### The code -/

/-- The bytes of `text` from an offset on, unless some are outside of it. -/
def readSpan (text : List Byte) (offset length : ℕ) : Option (List Byte) :=
  if offset + length ≤ text.length then some ((text.drop offset).take length) else none

/-- `std::strlen` of an array, unless it has no terminator. -/
def strlen (array : List Byte) : Option ℕ :=
  if 0 ∈ array then some (array.takeWhile (· ≠ 0)).length else none

def kDisplayPathPrefixComponents : ℕ := 2
def kDisplayPathSuffixComponents : ℕ := 2
def kMaxDisplayPathLength : ℕ := 128

/-- The file and the line. `shortPath` is what the array held before. -/
def appendFileLine (span : List Byte) (cwd : Option CString)
    (shortPath : Vector Byte kMaxDisplayPathLength) (outSize : ℕ) (buffer : Buffer) :
    Option Buffer :=
  match splitFileLineSpan span with
  | some found => do
    let displayPath ← readSpan span 0 found.pathLength
    let shortPath ← formatDisplayPath displayPath cwd kDisplayPathPrefixComponents
      kDisplayPathSuffixComponents shortPath.toList
    let buffer ← buffer.appendText outSize (← readSpan shortPath 0 (← strlen shortPath))
    let buffer ← buffer.appendText outSize [colon]
    buffer.appendText outSize (← readSpan span found.line found.lineLength)
  | none => buffer.appendText outSize span

/-- What precedes the file and the line, without the parenthesis before them. -/
def appendFunction (symbol : List Byte) (fileLineOffset outSize : ℕ) (buffer : Buffer) :
    Option Buffer := do
  let functionLength ←
    if 2 ≤ fileLineOffset then do
      let blank ← readSpan symbol (fileLineOffset - 2) 1
      let parenthesis ← readSpan symbol (fileLineOffset - 1) 1
      some
        (if blank = bytes " " ∧ parenthesis = bytes "(" then fileLineOffset - 2 else fileLineOffset)
    else some fileLineOffset
  if 0 < functionLength then
    let buffer ← buffer.appendText outSize (bytes " ")
    buffer.appendText outSize (← readSpan symbol 0 functionLength)
  else some buffer

/-- What follows the file and the line. -/
def appendTail (symbol : List Byte) (fileLineLength outSize : ℕ) (buffer : Buffer) :
    Option Buffer := do
  let tailLength := symbol.length - fileLineLength
  let startsWithBlank ←
    if 0 < tailLength then
      (readSpan symbol fileLineLength 1).map fun first => decide (first = bytes " ")
    else some false
  if startsWithBlank then
    let buffer ← buffer.appendText outSize (bytes " ")
    buffer.appendText outSize (← readSpan symbol (fileLineLength + 1) (tailLength - 1))
  else buffer.appendText outSize (← readSpan symbol fileLineLength tailLength)

/-- `FormatSymbolizedFrame`: the buffer, or nothing if the function would access memory out of
bounds. -/
def formatSymbolizedFrame (symbol : List Byte) (fileLineOffset fileLineLength : ℕ)
    (cwd : Option CString) (shortPath : Vector Byte kMaxDisplayPathLength) (out : List Byte) :
    Option (List Byte) :=
  if out.length = 0 then some out
  else do
    let buffer ← Buffer.terminate ⟨[], out⟩
    let hasFileLine := 0 < fileLineLength ∧ fileLineOffset ≤ symbol.length ∧
      fileLineLength ≤ symbol.length - fileLineOffset
    let buffer ←
      if hasFileLine then do
        let span ← readSpan symbol fileLineOffset fileLineLength
        let buffer ← appendFileLine span cwd shortPath out.length buffer
        if 0 < fileLineOffset then appendFunction symbol fileLineOffset out.length buffer
        else appendTail symbol fileLineLength out.length buffer
      else buffer.appendText out.length symbol
    return buffer.contents

/-! ### Reads -/

variable {text span symbol : List Byte} {offset length fileLineOffset fileLineLength : ℕ}

theorem readSpan_of_le (h : offset + length ≤ text.length) :
    readSpan text offset length = some ((text.drop offset).take length) := if_pos h

/-- An array with a terminator is read up to the first one. -/
theorem strlen_append (text rest : List Byte) :
    ∃ length, strlen (text ++ 0 :: rest) = some length ∧ length ≤ (text ++ 0 :: rest).length := by
  refine ⟨_, if_pos (by simp), ?_⟩
  exact (List.takeWhile_prefix _).length_le

theorem appendText_bind (h : buffer.HoldsText outSize pieces) (text : List Byte)
    {next : Buffer → Option Buffer}
    (hnext : ∀ after pieces, Buffer.HoldsText outSize pieces after →
      ∃ last pieces, next after = some last ∧ last.HoldsText outSize pieces) :
    ∃ last pieces, (buffer.appendText outSize text).bind next = some last ∧
      last.HoldsText outSize pieces := by
  obtain ⟨after, hafter, hholds⟩ := h.appendText text
  rw [hafter, Option.bind_some]
  exact hnext after _ hholds

/-! ### The pieces of a frame -/

theorem appendText_last (h : buffer.HoldsText outSize pieces) (text : List Byte) :
    ∃ last pieces, buffer.appendText outSize text = some last ∧ last.HoldsText outSize pieces := by
  obtain ⟨after, hafter, hholds⟩ := h.appendText text
  exact ⟨after, _, hafter, hholds⟩

theorem appendFileLine_spec (h : buffer.HoldsText outSize pieces) (span : List Byte)
    (cwd : Option CString) (shortPath : Vector Byte kMaxDisplayPathLength) :
    ∃ last pieces, appendFileLine span cwd shortPath outSize buffer = some last ∧
      last.HoldsText outSize pieces := by
  rw [appendFileLine]
  cases hfound : splitFileLineSpan span with
  | none => exact appendText_last h span
  | some found =>
    obtain ⟨hline, hbounds⟩ := splitFileLineSpan_bounds hfound
    have hshort : 0 < shortPath.toList.length := by
      rw [Vector.length_toList]
      decide
    simp only [Option.bind_eq_bind]
    rw [readSpan_of_le (by omega), Option.bind_some, formatDisplayPath_eq _ cwd _ _ hshort rfl,
      Option.bind_some]
    generalize displayText _ _ _ = text
    obtain ⟨shown, hshown, hle⟩ := strlen_append text (shortPath.toList.drop (text.length + 1))
    rw [hshown, Option.bind_some, readSpan_of_le (by omega), Option.bind_some]
    refine appendText_bind h _ fun after pieces hafter => ?_
    refine appendText_bind hafter _ fun after pieces hafter => ?_
    rw [readSpan_of_le hbounds, Option.bind_some]
    exact appendText_last hafter _

theorem appendFunction_spec (h : buffer.HoldsText outSize pieces)
    (hoffset : fileLineOffset ≤ symbol.length) :
    ∃ last pieces, appendFunction symbol fileLineOffset outSize buffer = some last ∧
      last.HoldsText outSize pieces := by
  -- the length of the name, which is at most the offset
  have hrest (functionLength : ℕ) (hle : functionLength ≤ fileLineOffset) :
      ∃ last pieces, (if 0 < functionLength then
          (buffer.appendText outSize (bytes " ")).bind fun buffer =>
            (readSpan symbol 0 functionLength).bind fun name => buffer.appendText outSize name
        else some buffer) = some last ∧ last.HoldsText outSize pieces := by
    split
    · refine appendText_bind h _ fun after pieces hafter => ?_
      rw [readSpan_of_le (by omega), Option.bind_some]
      exact appendText_last hafter _
    · exact ⟨buffer, pieces, rfl, h⟩
  simp only [appendFunction, Option.bind_eq_bind]
  by_cases htwo : 2 ≤ fileLineOffset
  · rw [if_pos htwo, readSpan_of_le (by omega), readSpan_of_le (by omega)]
    simp only [Option.bind_some]
    refine hrest _ ?_
    split <;> omega
  · rw [if_neg htwo, Option.bind_some]
    exact hrest _ le_rfl

theorem appendTail_spec (h : buffer.HoldsText outSize pieces) {symbol : List Byte}
    {fileLineLength : ℕ} (hlength : fileLineLength ≤ symbol.length) :
    ∃ last pieces, appendTail symbol fileLineLength outSize buffer = some last ∧
      last.HoldsText outSize pieces := by
  simp only [appendTail, Option.bind_eq_bind]
  by_cases htail : 0 < symbol.length - fileLineLength
  · rw [if_pos htail, readSpan_of_le (by omega), Option.map_some, Option.bind_some]
    split
    · refine appendText_bind h _ fun after pieces hafter => ?_
      rw [readSpan_of_le (by omega), Option.bind_some]
      exact appendText_last hafter _
    · rw [readSpan_of_le (by omega), Option.bind_some]
      exact appendText_last h _
  · rw [if_neg htail, Option.bind_some, if_neg Bool.false_ne_true, readSpan_of_le (by omega),
      Option.bind_some]
    exact appendText_last h _

theorem formatSymbolizedFrame_spec (symbol : List Byte) (fileLineOffset fileLineLength : ℕ)
    (cwd : Option CString) (shortPath : Vector Byte kMaxDisplayPathLength) (h : 0 < out.length) :
    ∃ buffer pieces, formatSymbolizedFrame symbol fileLineOffset fileLineLength cwd shortPath out =
        some (Buffer.contents buffer) ∧ buffer.HoldsText out.length pieces := by
  obtain ⟨buffer, hterminate, hempty⟩ := Buffer.holdsText_nil h
  simp only [formatSymbolizedFrame, hterminate, Option.bind_eq_bind, Option.bind_some]
  rw [if_neg (by omega)]
  split
  · next hspan =>
    obtain ⟨hpos, hoffset, hlength⟩ := hspan
    obtain ⟨after, pieces, hafter, hholds⟩ := appendFileLine_spec hempty
      ((symbol.drop fileLineOffset).take fileLineLength) cwd shortPath
    rw [readSpan_of_le (by omega), Option.bind_some, hafter, Option.bind_some]
    split
    · obtain ⟨last, pieces, hlast, hholds⟩ := appendFunction_spec hholds hoffset
      exact ⟨last, pieces, by rw [hlast]; rfl, hholds⟩
    · obtain ⟨last, pieces, hlast, hholds⟩ :=
        appendTail_spec hholds (show fileLineLength ≤ symbol.length by omega)
      exact ⟨last, pieces, by rw [hlast]; rfl, hholds⟩
  · obtain ⟨last, pieces, hlast, hholds⟩ := appendText_last hempty symbol
    exact ⟨last, pieces, by rw [hlast]; rfl, hholds⟩

/-! ### The bounds -/

/-- **Paths and frames stay within their buffers**, end with a terminator there, and are made of
what the symbol holds. A path without its middle keeps whole components from both of its ends. -/
theorem frames_in_bounds (path : List Byte) (cwd : Option CString)
    (prefixComponents suffixComponents : ℕ) (symbol : List Byte) (fileLineOffset fileLineLength : ℕ)
    (shortPath : Vector Byte kMaxDisplayPathLength) {out : List Byte} (h : 0 < out.length) :
    (∃ text rest, formatDisplayPath path cwd prefixComponents suffixComponents out =
          some (text ++ 0 :: rest) ∧
        (text ++ 0 :: rest).length = out.length ∧
        ∀ prefixEnd suffixStart,
          displayForm path cwd prefixComponents suffixComponents out.length =
              .middle prefixEnd suffixStart →
            text = path.take prefixEnd ++ bytes "/.../" ++ path.drop suffixStart ∧
              ∃ middle, middle ≠ [] ∧
                path = path.take prefixEnd ++ middle ++ path.drop suffixStart ∧
                components path = components (path.take prefixEnd) ++ components middle ++
                  components (path.drop suffixStart)) ∧
      ∃ text rest, formatSymbolizedFrame symbol fileLineOffset fileLineLength cwd shortPath out =
          some (text ++ 0 :: rest) ∧
        (text ++ 0 :: rest).length = out.length := by
  constructor
  · have hlength := displayText_length path cwd prefixComponents suffixComponents h
    refine ⟨_, _, formatDisplayPath_eq path cwd prefixComponents suffixComponents h rfl, ?_, ?_⟩
    · rw [List.length_append, List.length_cons, List.length_drop]
      omega
    · intro prefixEnd suffixStart hform
      obtain ⟨hend, hstart, hlt, _⟩ := displayForm_middle hform
      rw [hform]
      exact ⟨rfl, components_take_drop hend hstart hlt⟩
  · obtain ⟨buffer, pieces, hframe, hholds⟩ :=
      formatSymbolizedFrame_spec symbol fileLineOffset fileLineLength cwd shortPath h
    obtain ⟨rest, hcontents, hlength⟩ := hholds.contents
    rw [hcontents] at hframe hlength
    exact ⟨_, rest, hframe, hlength⟩

/-- A path that is too long to be shown as a whole. -/
def longPath : List Byte := bytes "/home/user/project/build/third_party/library/src/util/a.cc"

/-- The path loses its middle; the frame does not fit into its buffer. -/
theorem frames_in_bounds_shortened :
    (∃ rest, formatDisplayPath longPath none 2 2 (List.replicate 64 1) =
        some (bytes "/home/user/.../util/a.cc" ++ 0 :: rest) ∧
      (bytes "/home/user/.../util/a.cc" ++ 0 :: rest).length = 64 ∧
      ∃ middle, middle ≠ [] ∧ longPath = bytes "/home/user" ++ middle ++ bytes "util/a.cc" ∧
        components longPath = components (bytes "/home/user") ++ components middle ++
          components (bytes "util/a.cc")) ∧
      ∃ text rest, formatSymbolizedFrame (bytes "f (a.cc:3)") 3 6 none (Vector.replicate 128 1)
          (List.replicate 4 1) = some (text ++ 0 :: rest) ∧
        (text ++ 0 :: rest).length = 4 := by
  have hframes := frames_in_bounds longPath none 2 2 [] 0 0 (Vector.replicate 128 1)
    (show 0 < (List.replicate 64 (1 : Byte)).length by decide)
  have hform : displayForm longPath none 2 2 64 = .middle 10 49 := rfl
  have hfront : longPath.take 10 = bytes "/home/user" := by decide +kernel
  have hback : longPath.drop 49 = bytes "util/a.cc" := by decide +kernel
  have htext : bytes "/home/user" ++ bytes "/.../" ++ bytes "util/a.cc" =
      bytes "/home/user/.../util/a.cc" := by decide +kernel
  obtain ⟨text, rest, hrun, hlength, hmiddle⟩ := hframes.1
  rw [List.length_replicate] at hmiddle
  obtain ⟨rfl, hcomponents⟩ := hmiddle 10 49 hform
  rw [hfront, hback, htext] at hrun hlength
  rw [hfront, hback] at hcomponents
  exact ⟨⟨rest, hrun, hlength, hcomponents⟩, (frames_in_bounds [] none 0 0 (bytes "f (a.cc:3)") 3 6
    (Vector.replicate 128 1) (show 0 < (List.replicate 4 (1 : Byte)).length by decide)).2⟩

end SourceLocation

end NgLog
