import NgLog.Message.Colored
import NgLog.Support.Delimiters
import NgLog.Terminal.AnsiSequence

/-!
# Styled text

`WriteStyledField` writes a text line by line. With the color mode of a terminal that reads control
sequences, each line stands between the sequence of its color and a reset, and between the commands
of its hyperlink, if there is one; the newlines stand outside. Such a terminal shows the same bytes
as in the mode without colors, and is left with nothing selected.

## Main definitions

* `writeColoredField`, `wrapHyperlinkRaw`, `writeTextByLines`, `writeStyledField` — the functions
* `Displays` — what a terminal shows of some writes, from nothing selected to nothing selected

## Main results

* `content_writeStyledField` — in every mode the text is written once
* `displays_writeStyledField` — what is shown of it
-/

namespace NgLog

namespace Styled

open Message (ColorMode)
open Terminal (escape feed idle)

/-- A call of `WriteRawToStderr`, or of `write_content`. -/
inductive Write
  | raw (text : List Byte)
  | content (text : List Byte)

/-- The bytes of a call. -/
def Write.text : Write → List Byte
  | .raw text | .content text => text

/-- The bytes that are written. -/
def output (writes : List Write) : List Byte := writes.flatMap Write.text

/-- The bytes that are written as content. -/
def contentOf (writes : List Write) : List Byte :=
  writes.flatMap fun | .content text => text | .raw _ => []

def newline : Byte := 0x0a

/-- The string that `FormatAnsiSequence` leaves in an array of `kMaxAnsiSequenceSize` bytes. -/
def ansiSequence (spec : ColorSpec) : List Byte :=
  (formatAnsiSequence spec (List.replicate kMaxAnsiSequenceSize 0)).takeWhile (· ≠ 0)

def kAnsiReset : List Byte := [0x1b, 0x5b, 0x30, 0x6d]
def kOsc8Prefix : List Byte := [0x1b, 0x5d, 0x38, 0x3b, 0x3b]
def kOsc8Separator : List Byte := [0x1b, 0x5c]
def kOsc8Close : List Byte := [0x1b, 0x5d, 0x38, 0x3b, 0x3b, 0x1b, 0x5c]

/-- `WriteColoredField`. The legacy console is one of another platform. -/
def writeColoredField (spec : ColorSpec) (mode : ColorMode) (text : List Byte) : List Write :=
  if text.length = 0 then []
  else
    match mode with
    | .ansi => [.raw (ansiSequence spec), .content text, .raw kAnsiReset]
    | .none | .legacyConsole => [.content text]

/-- `WrapHyperlinkRaw`, with the string of the address. -/
def wrapHyperlinkRaw (uri : Option (List Byte)) (body : List Write) : List Write :=
  match uri with
  | none => body
  | some uri =>
    Write.raw kOsc8Prefix :: Write.raw uri :: Write.raw kOsc8Separator :: body ++
      [Write.raw kOsc8Close]

/-- `WriteTextByLines` -/
def writeTextByLines (writeLine writeNewline : List Byte → List Write) (text : List Byte) :
    List Write :=
  if text.length = 0 then []
  else
    let line := text.takeWhile (· ≠ newline)
    let written := if line.length ≠ 0 then writeLine line else []
    match _h : text.dropWhile (· ≠ newline) with
    | [] => written
    | lineEnd :: rest =>
      written ++ writeNewline [lineEnd] ++ writeTextByLines writeLine writeNewline rest
termination_by text.length
decreasing_by
  have hle := (List.dropWhile_suffix (l := text) fun c => decide (c ≠ newline)).length_le
  rw [_h, List.length_cons] at hle
  exact hle

/-- `write_line` of `WriteStyledField`. -/
def writeLine (spec : ColorSpec) (uri : Option (List Byte)) (mode : ColorMode) (line : List Byte) :
    List Write :=
  match mode, uri with
  | .ansi, some uri => wrapHyperlinkRaw (some uri) (writeColoredField spec mode line)
  | _, _ => writeColoredField spec mode line

/-- `WriteStyledField` -/
def writeStyledField (spec : ColorSpec) (uri : Option (List Byte)) (mode : ColorMode)
    (text : List Byte) :
    List Write :=
  writeTextByLines (writeLine spec uri mode) (fun line => [.content line]) text

/-! ### The lines of a text -/

variable {forLine forNewline : List Byte → List Write} {text line rest : List Byte}

theorem writeTextByLines_nil : writeTextByLines forLine forNewline [] = [] := by
  rw [writeTextByLines, if_pos List.length_nil]

/-- The last line. -/
theorem writeTextByLines_last (hne : line ≠ []) (hline : newline ∉ line) :
    writeTextByLines forLine forNewline line = forLine line := by
  have hlength := List.length_pos_iff.mpr hne
  rw [writeTextByLines, if_neg (Nat.ne_of_gt hlength)]
  simp only [takeWhile_ne_of_notMem hline]
  rw [if_pos (Nat.ne_of_gt hlength)]
  split
  · rfl
  · rename_i hrest
    rw [dropWhile_ne_of_notMem hline] at hrest
    cases hrest

/-- A line and what follows its end. -/
theorem writeTextByLines_line (hline : newline ∉ line) (rest : List Byte) :
    writeTextByLines forLine forNewline (line ++ newline :: rest) =
      (if line.length ≠ 0 then forLine line else []) ++ forNewline [newline] ++
        writeTextByLines forLine forNewline rest := by
  rw [writeTextByLines, if_neg (by simp)]
  simp only [takeWhile_ne_append hline]
  split
  · rename_i hrest
    rw [dropWhile_ne_append hline] at hrest
    cases hrest
  · rename_i hrest
    rw [dropWhile_ne_append hline] at hrest
    cases hrest
    rfl

/-- What holds of the writes of each line, of those of a newline and of no writes, and of writes one
after the other, holds of all writes. -/
theorem writeTextByLines_induction {motive : List Byte → List Write → Prop} (hnil : motive [] [])
    (hline : ∀ line, line ≠ [] → newline ∉ line → motive line (forLine line))
    (hnewline : motive [newline] (forNewline [newline]))
    (happend : ∀ text text' writes writes', motive text writes → motive text' writes' →
      motive (text ++ text') (writes ++ writes')) (text : List Byte) :
    motive text (writeTextByLines forLine forNewline text) := by
  induction text using delimited_induction newline with
  | last line hnot =>
    by_cases hne : line = []
    · rw [hne, writeTextByLines_nil]
      exact hnil
    · rw [writeTextByLines_last hne hnot]
      exact hline line hne hnot
  | cons line rest hnot ih =>
    rw [writeTextByLines_line hnot]
    have hfirst : motive line (if line.length ≠ 0 then forLine line else []) := by
      by_cases hne : line = []
      · rw [hne, if_neg (not_not_intro List.length_nil)]
        exact hnil
      · rw [if_pos (by rwa [ne_eq, List.length_eq_zero_iff])]
        exact hline line hne hnot
    have hall := happend _ _ _ _ (happend _ _ _ _ hfirst hnewline) ih
    rwa [List.append_assoc, List.singleton_append] at hall

/-! ### What is written -/

theorem output_append (writes writes' : List Write) :
    output (writes ++ writes') = output writes ++ output writes' :=
  List.flatMap_append

theorem contentOf_append (writes writes' : List Write) :
    contentOf (writes ++ writes') = contentOf writes ++ contentOf writes' :=
  List.flatMap_append

theorem contentOf_writeColoredField (spec : ColorSpec) (mode : ColorMode) (text : List Byte) :
    contentOf (writeColoredField spec mode text) = text := by
  by_cases hlength : text.length = 0
  · rw [writeColoredField.eq_def, if_pos hlength, List.length_eq_zero_iff.mp hlength]
    rfl
  · rw [writeColoredField.eq_def, if_neg hlength]
    cases mode <;> simp [contentOf]

theorem contentOf_wrapHyperlinkRaw (uri : Option (List Byte)) (body : List Write) :
    contentOf (wrapHyperlinkRaw uri body) = contentOf body := by
  cases uri with
  | none => rfl
  | some uri => simp [wrapHyperlinkRaw, contentOf]

/-- In every mode the text is written once. -/
theorem content_writeStyledField (spec : ColorSpec) (uri : Option (List Byte)) (mode : ColorMode)
    (text : List Byte) : contentOf (writeStyledField spec uri mode text) = text := by
  refine writeTextByLines_induction (motive := fun text writes => contentOf writes = text) rfl
    ?_ rfl ?_ text
  · intro line _ _
    rw [Styled.writeLine.eq_def]
    split
    · rw [contentOf_wrapHyperlinkRaw, contentOf_writeColoredField]
    · exact contentOf_writeColoredField spec mode line
  · rintro text text' writes writes' rfl rfl
    exact contentOf_append writes writes'

/-- Without colors nothing else is written. -/
theorem output_writeStyledField_none (spec : ColorSpec) (uri : Option (List Byte))
    (text : List Byte) :
    output (writeStyledField spec uri .none text) = text := by
  refine writeTextByLines_induction (motive := fun text writes => output writes = text) rfl
    ?_ rfl ?_ text
  · intro line hne _
    rw [Styled.writeLine.eq_def, writeColoredField, if_neg (by rwa [List.length_eq_zero_iff])]
    exact List.flatMap_singleton ..
  · rintro text text' writes writes' rfl rfl
    exact output_append writes writes'

/-! ### What is shown -/

/-- What a terminal shows of some writes, from nothing selected to nothing selected. -/
def Displays (writes : List Write) (cells : List (Byte × Pen)) : Prop :=
  ∀ shown, feed (idle .plain shown) (output writes) = idle .plain (shown ++ cells)

theorem displays_nil : Displays [] [] := fun shown => by
  rw [List.append_nil]
  rfl

theorem Displays.append {writes writes' : List Write} {cells cells' : List (Byte × Pen)}
    (h : Displays writes cells) (h' : Displays writes' cells') :
    Displays (writes ++ writes') (cells ++ cells') := fun shown => by
  rw [output_append, Terminal.feed_append, h, h', List.append_assoc]

theorem displays_content (h : escape ∉ text) :
    Displays [.content text] (text.map fun c => (c, .plain)) := fun shown => by
  rw [output, List.flatMap_singleton]
  exact Terminal.feed_text h .plain shown

/-- The array is big enough for every sequence. -/
theorem ansiSequence_eq (spec : ColorSpec) : ansiSequence spec = spec.sequence := by
  have hpos : 0 < (List.replicate kMaxAnsiSequenceSize (0 : Byte)).length := by
    rw [List.length_replicate]
    decide
  obtain ⟨-, hzero, rest, hrest⟩ := formatAnsiSequence_spec spec hpos
  rw [List.length_replicate, if_pos (length_sequence_lt spec)] at hzero hrest
  rw [ansiSequence, hrest, takeWhile_ne_append hzero]

/-- The pen of a byte of a text that is written in a mode. -/
def styledPen (spec : ColorSpec) (uri : Option (List Byte)) (mode : ColorMode) (c : Byte) : Pen :=
  match mode with
  | .ansi => if c = newline then .plain else spec.pen (uri.getD [])
  | .none | .legacyConsole => .plain

/-- A line is shown in its color, in the hyperlink that has begun. -/
theorem feed_writeColoredField {spec : ColorSpec} (hne : line ≠ []) (hline : escape ∉ line)
    (link : List Byte) (shown : List (Byte × Pen)) :
    feed (idle { Pen.plain with link := link } shown) (output (writeColoredField spec .ansi line)) =
      idle { Pen.plain with link := link } (shown ++ line.map fun c => (c, spec.pen link)) := by
  have houtput : output (writeColoredField spec .ansi line) =
      spec.sequence ++ (line ++ Terminal.selectSequence [0]) := by
    rw [writeColoredField, if_neg (by rwa [List.length_eq_zero_iff]), ← ansiSequence_eq]
    simp [output, Write.text]
    decide
  rw [houtput, Terminal.feed_append, feed_sequence, Terminal.feed_append, Terminal.feed_text hline,
    Terminal.feed_select (List.cons_ne_nil _ _)]
  rfl

theorem displays_line {spec : ColorSpec} {uri : Option (List Byte)} {mode : ColorMode}
    (huri : ∀ u ∈ uri, escape ∉ u) (hne : line ≠ []) (hline : escape ∉ line)
    (hnewline : newline ∉ line) :
    Displays (writeLine spec uri mode line) (line.map fun c => (c, styledPen spec uri mode c)) := by
  have hpens : (line.map fun c => (c, styledPen spec uri .ansi c)) =
      line.map fun c => (c, spec.pen (uri.getD [])) :=
    List.map_congr_left fun c hc => by
      rw [styledPen, if_neg fun heq : c = newline => hnewline (heq ▸ hc)]
  cases mode with
  | ansi =>
    rw [hpens]
    cases uri with
    | none => exact feed_writeColoredField hne hline []
    | some uri =>
      intro shown
      rw [Styled.writeLine]
      have hescape := huri uri rfl
      have houtput : output (wrapHyperlinkRaw (some uri) (writeColoredField spec .ansi line)) =
          Terminal.linkSequence uri ++ (output (writeColoredField spec .ansi line) ++
            Terminal.linkSequence []) := by
        simp [wrapHyperlinkRaw, output, Write.text, Terminal.linkSequence, kOsc8Prefix,
          kOsc8Separator,
          kOsc8Close]
        decide
      rw [houtput, Terminal.feed_append, Terminal.feed_link hescape, Terminal.feed_append,
        feed_writeColoredField hne hline, Terminal.feed_link List.not_mem_nil]
      rfl
  | none | legacyConsole =>
    have hcontent : Displays [.content line] (line.map fun c => (c, .plain)) :=
      displays_content hline
    rw [Styled.writeLine.eq_def, writeColoredField, if_neg (by rwa [List.length_eq_zero_iff])]
    exact hcontent

/-- Each line of a text is shown in the color and the hyperlink that are given, and in no mode more
or less than the text is shown. -/
theorem displays_writeStyledField (spec : ColorSpec) {uri : Option (List Byte)} (mode : ColorMode)
    (huri : ∀ u ∈ uri, escape ∉ u) (htext : escape ∉ text) :
    Displays (writeStyledField spec uri mode text)
      (text.map fun c => (c, styledPen spec uri mode c)) := by
  refine writeTextByLines_induction (motive := fun text writes => escape ∉ text → Displays writes
    (text.map fun c => (c, styledPen spec uri mode c))) (fun _ => displays_nil) ?_ ?_ ?_ text htext
  · intro line hne hnewline hline
    exact displays_line huri hne hline hnewline
  · intro hnewline
    have hplain : styledPen spec uri mode newline = .plain := by
      cases mode with
      | ansi => rw [styledPen, if_pos rfl]
      | none | legacyConsole => rfl
    rw [List.map_singleton, hplain]
    exact displays_content hnewline
  · intro text text' writes writes' h h' hall
    rw [List.mem_append, not_or] at hall
    rw [List.map_append]
    exact (h hall.1).append (h' hall.2)

end Styled

end NgLog
