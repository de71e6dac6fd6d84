import Mathlib.Data.List.Induction
import NgLog.SourceLocation.FileUri
import NgLog.Support.Delimiters

/-!
# The file and the line of a symbol

`FormatAddr2LineOutput` takes the file and the line from the first line of the output of addr2line
and writes them in front of the name of a symbol. `SplitFileLineSpan` finds the two again in that
text when a stack trace is shown. Both look for the colon between them from the end, as a file name
may hold colons and digits of its own.

## Main definitions

* `findIfReverse` — a search from the end
* `splitFileLineSpan` — the file and the line of a text
* `formatAddr2LineOutput` — the text for a line of addr2line

## Main results

* `splitFileLineSpan_append` — a file, a colon and a line are split there
* `formatAddr2LineOutput_eq` — what is written, if there is room for it
* `splitFileLineSpan_formatAddr2LineOutput` — the text is split as it was put together
-/

namespace NgLog

namespace SourceLocation

/-- `:`. -/
def colon : Byte := 0x3a

/-- A line feed. -/
def newline : Byte := 0x0a

/-! ### The code -/

/-- `IsDigitChar`. -/
def isDigitChar (c : Byte) : Bool := 0x30 ≤ c && c ≤ 0x39

/-- `std::find_if` with reverse iterators: the length of the text up to the last byte that satisfies
`p` and with it, or zero if there is none. -/
def findIfReverse (p : Byte → Bool) (text : List Byte) : ℕ :=
  (text.reverse.dropWhile fun c => !p c).length

/-- The length of the path of a span, which starts where the span does, and the place and the length
of the line in it. -/
structure FileLine where
  pathLength : ℕ
  line : ℕ
  lineLength : ℕ
  deriving DecidableEq

/-- The path of a span. -/
def FileLine.path (found : FileLine) (span : List Byte) : List Byte := span.take found.pathLength

/-- The line of a span. -/
def FileLine.lineText (found : FileLine) (span : List Byte) : List Byte :=
  (span.drop found.line).take found.lineLength

/-- `SplitFileLineSpan`. -/
def splitFileLineSpan (span : List Byte) : Option FileLine :=
  let digitsEnd := findIfReverse isDigitChar span
  if digitsEnd = 0 then none
  else
    let colonEnd := findIfReverse (fun c => !isDigitChar c) (span.take digitsEnd)
    if colonEnd = 0 ∨ span[colonEnd - 1]? ≠ some colon then none
    else
      let pathLength := colonEnd - 1
      if pathLength = 0 then none else some ⟨pathLength, colonEnd, digitsEnd - colonEnd⟩

/-- The writes of `FormatAddr2LineOutput`: the number of bytes before the terminator, and the
buffer. -/
def writeFileLine (file lineField out : List Byte) : Option (ℕ × List Byte) := do
  let buffer ← Buffer.append file ⟨[], out⟩
  let buffer ← buffer.put colon
  let buffer ← buffer.append lineField
  let buffer ← buffer.put 0x20
  let terminated ← buffer.put 0
  return (buffer.written.length, terminated.written ++ terminated.rest)

/-- `FormatAddr2LineOutput`: its result and the buffer, or nothing if it would write beyond that. -/
def formatAddr2LineOutput (input out : List Byte) : Option (ℕ × List Byte) :=
  let line := input.takeWhile (· ≠ newline)
  if line.length = 0 then some (0, out)
  else
    let colonEnd := findIfReverse (· = colon) line
    if colonEnd = 0 then some (0, out)
    else
      let file := line.take (colonEnd - 1)
      let lineField := line.drop colonEnd
      if file.length = 0 ∨ lineField.length = 0 then some (0, out)
      else
        let digits := lineField.takeWhile isDigitChar
        if digits.length = 0 then some (0, out)
        else if file = bytes "??" then some (0, out)
        else if out.length = 0 then some (0, out)
        else
          let remaining := out.length - 1
          if remaining < 2 then some (0, out)
          else
            let remaining := remaining - 2
            if remaining < file.length then some (0, out)
            else
              let remaining := remaining - file.length
              if remaining < digits.length then some (0, out)
              else writeFileLine file digits out

/-! ### Searching from the end -/

section

variable {p : Byte → Bool} {text front back : List Byte} {c : Byte}

theorem findIfReverse_append (h : ∀ c ∈ back, p c = false) :
    findIfReverse p (front ++ back) = findIfReverse p front := by
  have hback : ∀ c ∈ back.reverse, (!p c) = true := by simpa using h
  rw [findIfReverse, List.reverse_append, List.dropWhile_append_of_pos hback, findIfReverse]

theorem findIfReverse_concat (h : p c = true) :
    findIfReverse p (front ++ [c]) = front.length + 1 := by
  simp [findIfReverse, h]

/-- The last byte that satisfies `p`, if there is one. -/
theorem findIfReverse_append_cons (hc : p c = true) (h : ∀ c ∈ back, p c = false) :
    findIfReverse p (front ++ c :: back) = front.length + 1 := by
  have hsplit : front ++ c :: back = front ++ [c] ++ back := by simp
  rw [hsplit, findIfReverse_append h, findIfReverse_concat hc]

/-- The text up to the byte ends with it, and no byte behind satisfies `p`. -/
theorem findIfReverse_spec (p : Byte → Bool) (text : List Byte) :
    (findIfReverse p text = 0 ∧ ∀ c ∈ text, p c = false) ∨
      ∃ front c back, text = front ++ c :: back ∧ p c = true ∧ (∀ c ∈ back, p c = false) ∧
        findIfReverse p text = front.length + 1 := by
  induction text using List.reverseRecOn with
  | nil => exact Or.inl ⟨rfl, by simp⟩
  | append_singleton text d ih =>
    by_cases hd : p d = true
    · exact Or.inr ⟨text, d, [], rfl, hd, by simp, findIfReverse_concat hd⟩
    · rw [Bool.not_eq_true] at hd
      have hlast : ∀ c ∈ [d], p c = false := by simpa using hd
      rw [findIfReverse_append hlast]
      rcases ih with ⟨hzero, hnone⟩ | ⟨front, c, back, rfl, hc, hback, hfound⟩
      · refine Or.inl ⟨hzero, ?_⟩
        simpa [or_imp, forall_and] using ⟨hnone, hd⟩
      · refine Or.inr ⟨front, c, back ++ [d], by simp, hc, ?_, hfound⟩
        simpa [or_imp, forall_and] using ⟨hback, hd⟩

theorem findIfReverse_le (p : Byte → Bool) (text : List Byte) :
    findIfReverse p text ≤ text.length := by
  rcases findIfReverse_spec p text with ⟨hzero, _⟩ | ⟨front, c, back, rfl, _, _, hfound⟩
  · omega
  · rw [hfound, List.length_append, List.length_cons]
    omega

end

/-! ### Splitting -/

variable {file digits annotation rest out : List Byte}

/-- The digits at the end are the line, whatever the file name holds. -/
theorem splitFileLineSpan_append (hfile : file ≠ []) (hne : digits ≠ [])
    (hdigits : ∀ c ∈ digits, isDigitChar c = true) :
    splitFileLineSpan (file ++ colon :: digits) =
      some ⟨file.length, file.length + 1, digits.length⟩ := by
  have hpos := List.length_pos_of_ne_nil hfile
  have hend : findIfReverse isDigitChar (file ++ colon :: digits) =
      (file ++ colon :: digits).length := by
    obtain ⟨front, last, rfl⟩ := List.eq_nil_or_concat digits |>.resolve_left hne
    have hsplit : file ++ colon :: front.concat last = (file ++ colon :: front) ++ [last] := by simp
    rw [hsplit, findIfReverse_concat (hdigits last (by simp))]
    simp [Nat.add_assoc]
  have hcolon : findIfReverse (fun c => !isDigitChar c) (file ++ colon :: digits) =
      file.length + 1 :=
    findIfReverse_append_cons (by decide) fun c hc => by simp [hdigits c hc]
  simp only [splitFileLineSpan, hend, List.take_length, hcolon]
  rw [if_neg (by simp), if_neg (by simp), if_neg (by omega)]
  simp only [List.length_append, List.length_cons, Nat.add_sub_cancel, Option.some.injEq,
    FileLine.mk.injEq, true_and]
  omega

/-- What is found lies in the span: the path, the colon and the line are its beginning. -/
theorem splitFileLineSpan_bounds {span : List Byte} {found : FileLine}
    (h : splitFileLineSpan span = some found) :
    found.pathLength + 1 = found.line ∧ found.line + found.lineLength ≤ span.length := by
  have hle := findIfReverse_le isDigitChar span
  have hcolon := findIfReverse_le (fun c => !isDigitChar c)
    (span.take (findIfReverse isDigitChar span))
  rw [List.length_take] at hcolon
  simp only [splitFileLineSpan] at h
  split_ifs at h with hdigits hend hpath
  obtain rfl := Option.some.inj h
  simp only
  omega

/-! ### The line of addr2line -/

/-- The writes, with the terminator behind the cursor. -/
theorem writeFileLine_eq (h : file.length + digits.length + 3 ≤ out.length) :
    writeFileLine file digits out =
      some (file.length + digits.length + 2,
        file ++ colon :: digits ++ [0x20, 0] ++ out.drop (file.length + digits.length + 3)) := by
  have hwrites := (((Buffer.writes_append file).bind (Buffer.writes_put colon)).bind
    (Buffer.writes_append digits)).bind (Buffer.writes_put 0x20)
  have hlength : (file ++ [colon] ++ digits ++ [(0x20 : Byte)]).length =
      file.length + digits.length + 2 := by
    simp only [List.length_append, List.length_singleton]
    omega
  have hrun := hwrites ⟨[], out⟩ (by rw [hlength]; simp only; omega)
  have hroom :
    0 < (Buffer.advance (file ++ [colon] ++ digits ++ [0x20]) ⟨[], out⟩).rest.length := by
    rw [Buffer.length_advance, hlength]
    simp only
    omega
  calc writeFileLine file digits out
      = (some (Buffer.advance (file ++ [colon] ++ digits ++ [0x20]) ⟨[], out⟩)).bind fun buffer =>
          (buffer.put 0).bind fun terminated =>
            some (buffer.written.length, terminated.written ++ terminated.rest) := by
        rw [← hrun]
        simp only [writeFileLine, Option.bind_eq_bind, Option.bind_assoc]
        rfl
    _ = _ := by
        rw [Option.bind_some, Buffer.put_run hroom, Option.bind_some, ← Buffer.advance_append]
        simp [Buffer.advance, Nat.add_assoc]

/-- The first line of the output: a file name, a colon, the digits of the line and what follows
them. -/
structure IsFileLine (file digits annotation : List Byte) : Prop where
  file_ne_nil : file ≠ []
  file_ne_mark : file ≠ bytes "??"
  digits_ne_nil : digits ≠ []
  digits_isDigit : ∀ c ∈ digits, isDigitChar c = true
  /-- Digits are read up to the first other byte. -/
  annotation_head : ∀ c ∈ annotation.head?, isDigitChar c = false
  /-- The line is split at the last colon. -/
  annotation_colon : colon ∉ annotation
  /-- It is one line. -/
  no_newline : newline ∉ file ++ annotation

variable (h : IsFileLine file digits annotation)
include h

theorem IsFileLine.takeWhile_newline (hrest : ∀ c ∈ rest.head?, c = newline) :
    (file ++ colon :: (digits ++ annotation) ++ rest).takeWhile (· ≠ newline) =
      file ++ colon :: (digits ++ annotation) := by
  have hline : ∀ c ∈ file ++ colon :: (digits ++ annotation), decide (c ≠ newline) = true := by
    intro c hc
    simp only [decide_eq_true_eq]
    rintro rfl
    simp only [List.mem_append, List.mem_cons] at hc
    rcases hc with hc | hc | hc | hc
    · exact h.no_newline (List.mem_append_left _ hc)
    · exact absurd hc (by decide)
    · exact absurd (h.digits_isDigit _ hc) (by decide)
    · exact h.no_newline (List.mem_append_right _ hc)
  refine takeWhile_append_of_head hline fun c hc => ?_
  simp [hrest c hc]

theorem IsFileLine.takeWhile_digits : (digits ++ annotation).takeWhile isDigitChar = digits :=
  takeWhile_append_of_head h.digits_isDigit h.annotation_head

theorem IsFileLine.ne_colon : ∀ c ∈ digits ++ annotation, decide (c = colon) = false := by
  intro c hc
  simp only [decide_eq_false_iff_not]
  rintro rfl
  rcases List.mem_append.mp hc with hc | hc
  · exact absurd (h.digits_isDigit _ hc) (by decide)
  · exact h.annotation_colon hc

/-- **The file and the line of addr2line are written with a blank behind them**, or nothing is if
there is no room for them and a terminator. -/
theorem formatAddr2LineOutput_eq (hrest : ∀ c ∈ rest.head?, c = newline) (out : List Byte) :
    formatAddr2LineOutput (file ++ colon :: (digits ++ annotation) ++ rest) out =
      if out.length < file.length + digits.length + 3 then some (0, out)
      else
        some (file.length + digits.length + 2,
          file ++ colon :: digits ++ [0x20, 0] ++ out.drop (file.length + digits.length + 3)) := by
  have hfile := List.length_pos_of_ne_nil h.file_ne_nil
  have hdigits := List.length_pos_of_ne_nil h.digits_ne_nil
  have hline := h.takeWhile_newline hrest
  have hcolon : findIfReverse (· = colon) (file ++ colon :: (digits ++ annotation)) =
      file.length + 1 :=
    findIfReverse_append_cons (by simp) h.ne_colon
  have hsplit : (file ++ colon :: (digits ++ annotation)).take file.length = file := by simp
  have hfield : (file ++ colon :: (digits ++ annotation)).drop (file.length + 1) =
      digits ++ annotation := by simp
  simp only [formatAddr2LineOutput, hline, hcolon, Nat.add_sub_cancel, hsplit, hfield,
    h.takeWhile_digits]
  rw [if_neg (by simp only [List.length_append, List.length_cons]; omega), if_neg (by omega),
    if_neg (by simp only [List.length_append]; omega), if_neg (by omega), if_neg h.file_ne_mark]
  by_cases hroom : out.length < file.length + digits.length + 3
  · rw [if_pos hroom]
    split_ifs <;> first | rfl | omega
  · rw [if_neg hroom, if_neg (by omega), if_neg (by omega), if_neg (by omega), if_neg (by omega),
      writeFileLine_eq (by omega)]

/-- **The text is split as it was put together**, where there is room for it and a terminator. -/
theorem splitFileLineSpan_formatAddr2LineOutput (hrest : ∀ c ∈ rest.head?, c = newline)
    (out : List Byte) :
    (out.length < file.length + digits.length + 3 ∧
      formatAddr2LineOutput (file ++ colon :: (digits ++ annotation) ++ rest) out =
        some (0, out)) ∨
      file.length + digits.length + 3 ≤ out.length ∧ ∃ size written,
        formatAddr2LineOutput (file ++ colon :: (digits ++ annotation) ++ rest) out =
          some (size, written) ∧
        written.length = out.length ∧ size < out.length ∧
        written.take (size + 1) = file ++ colon :: digits ++ [0x20, 0] ∧
        ∃ found, splitFileLineSpan (written.take (size - 1)) = some found ∧
          found.path (written.take (size - 1)) = file ∧
          found.lineText (written.take (size - 1)) = digits := by
  rw [formatAddr2LineOutput_eq h hrest]
  by_cases hroom : out.length < file.length + digits.length + 3
  · exact Or.inl ⟨hroom, if_pos hroom⟩
  · refine Or.inr ⟨by omega, _, _, if_neg hroom, ?_, by omega, ?_, ?_⟩
    · simp only [List.length_append, List.length_cons, List.length_nil, List.length_drop]
      omega
    · have hlength : (file ++ colon :: digits ++ [0x20, 0]).length = file.length +
          digits.length + 3 := by
        simp only [List.length_append, List.length_cons, List.length_nil]
        omega
      rw [List.take_append_of_le_length (Nat.le_of_eq hlength.symm),
        List.take_of_length_le (Nat.le_of_eq hlength)]
    · have hlength : (file ++ colon :: digits).length = file.length + digits.length + 2 - 1 := by
        rw [List.length_append, List.length_cons]
        omega
      have htake : (file ++ colon :: digits ++ [0x20, 0] ++
          out.drop (file.length + digits.length + 3)).take (file.length + digits.length + 2 - 1) =
          file ++ colon :: digits := by
        rw [List.append_assoc, List.take_append_of_le_length (Nat.le_of_eq hlength.symm),
          List.take_of_length_le (Nat.le_of_eq hlength)]
      rw [htake]
      refine ⟨_, splitFileLineSpan_append h.file_ne_nil h.digits_ne_nil h.digits_isDigit, ?_, ?_⟩
      · simp [FileLine.path]
      · simp [FileLine.lineText]

omit h

/-- A drive letter and a discriminator. -/
theorem splitFileLineSpan_formatAddr2LineOutput_drive : ∃ size written,
    formatAddr2LineOutput (bytes "C:/a9" ++ colon :: (bytes "12" ++ bytes " (x)") ++ [newline])
        (List.replicate 16 0) = some (size, written) ∧
      written.take (size + 1) = bytes "C:/a9" ++ colon :: bytes "12" ++ [0x20, 0] ∧
      ∃ found, splitFileLineSpan (written.take (size - 1)) = some found ∧
        found.path (written.take (size - 1)) = bytes "C:/a9" ∧
        found.lineText (written.take (size - 1)) = bytes "12" := by
  have h : IsFileLine (bytes "C:/a9") (bytes "12") (bytes " (x)") :=
    ⟨by decide, by decide +kernel, by decide, by decide +kernel, by decide +kernel,
      by decide +kernel, by decide +kernel⟩
  have hrest : ∀ c ∈ [newline].head?, c = newline := by decide +kernel
  obtain ⟨hfull, -⟩ | ⟨-, size, written, hrun, -, -, htext, hfound⟩ :=
    splitFileLineSpan_formatAddr2LineOutput h hrest (List.replicate 16 0)
  · exact absurd hfull (by decide)
  · exact ⟨size, written, hrun, htext, hfound⟩

end SourceLocation

end NgLog
