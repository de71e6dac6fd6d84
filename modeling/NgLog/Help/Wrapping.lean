import Mathlib.Data.List.TakeWhile
import NgLog.Support.Bytes
import NgLog.Support.Wrapping

/-!
# The wrapped description of a flag

The help of a flag is written in lines that fit the terminal. A line that does not hold the rest of
its paragraph ends before the last space that fits, and behind as many characters as fit if there is
none. The spaces after the end of a line are skipped. A newline ends a paragraph.

`position + line_width` is a `std::size_t`. A width near its maximum makes the sum wrap around, so
that a line ends before it starts and characters are written again. `PrintHelpSnapshot` passes a
width that is at most the width of the terminal, for which it does not.

## Main definitions

* `flattenStyledHelp`, `writeWrappedStyledHelp` — the functions, and `helpWidth` for the width
* `writeLine` — one line, in pieces of one style
* `lineEnd`, `skipSpaces` — where a line ends, and where the next one starts

## Main results

* `lineEnd_spec` — a line fits, and the next one starts behind it
* `writeParagraph_spec` — the lines of a paragraph, by induction on the rest of it
* `writeWrappedStyledHelp_spec` — the whole text, unless the end of a line wraps around
* `writeWrappedStyledHelp_repeats` — a width for which it does
-/

namespace NgLog

namespace Help

/-! ### The code -/

/-- `HelpTextStyle`. -/
inductive HelpTextStyle
  | kPlain
  | kHeading
  | kUsageOptions
  | kOptionPrefix
  | kOption
  | kCode
  | kConstant
  | kEnvironmentVariable
  | kType
  | kValue
  | kExecutable
  | kMeta
  | kStream
  deriving DecidableEq

/-- `StyledHelpCharacter`. -/
structure StyledHelpCharacter where
  /-- How the character is written. -/
  style : HelpTextStyle
  /-- The character. -/
  value : Byte
  deriving DecidableEq

/-- `FlattenStyledHelp`. -/
def flattenStyledHelp (parts : List (HelpTextStyle × List Byte)) : List StyledHelpCharacter :=
  parts.flatMap fun part => part.2.map fun character => ⟨part.1, character⟩

/-- What is written to `stderr`. -/
inductive Written
  /-- The indentation, in the style of a description. -/
  | indent (text : List Byte)
  /-- Text in the style of a part. -/
  | text (style : HelpTextStyle) (text : List Byte)
  /-- The end of a line. -/
  | newline
  deriving DecidableEq

/-- The loop of `write_line`: the pieces of one style. -/
def writePieces : List StyledHelpCharacter → List Written
  | [] => []
  | first :: line =>
    .text first.style
        (first.value :: (line.takeWhile fun character => character.style = first.style).map
          StyledHelpCharacter.value) ::
      writePieces (line.dropWhile fun character => character.style = first.style)
  termination_by line => line.length
  decreasing_by
    exact Nat.lt_succ_of_le (List.dropWhile_suffix _).length_le

/-- `write_line`. -/
def writeLine (helpIndent : List Byte) (line : List StyledHelpCharacter) : List Written :=
  Written.indent helpIndent :: writePieces line ++ [Written.newline]

def isSpace (character : StyledHelpCharacter) : Bool := character.value = 0x20

def isNewline (character : StyledHelpCharacter) : Bool := character.value = 0x0A

/-- The characters `[first, last)`. -/
def slice (characters : List StyledHelpCharacter) (first last : ℕ) : List StyledHelpCharacter :=
  (characters.take last).drop first

/-- The search backwards for a space at `position` or behind it, before `space`. -/
def findSpace (characters : List StyledHelpCharacter) (position : ℕ) : ℕ → Option ℕ
  | 0 => none
  | space + 1 =>
    if space + 1 > position then
      if characters[space]?.any isSpace then some space
      else findSpace characters position space
    else none

/-- The end of a line that starts at `position`. -/
def lineEnd (sizeMax : ℕ) (characters : List StyledHelpCharacter)
    (lineWidth position paragraphEnd : ℕ) : ℕ :=
  let lineEnd := min ((position + lineWidth) % (sizeMax + 1)) paragraphEnd
  if lineEnd < paragraphEnd then (findSpace characters position lineEnd).getD lineEnd else lineEnd

/-- The loop over the spaces from `position` on. -/
def skipSpaces (characters : List StyledHelpCharacter) (position paragraphEnd : ℕ) : ℕ :=
  position + ((slice characters position paragraphEnd).takeWhile isSpace).length

/-- The loop over the lines of a paragraph. -/
def writeParagraph (sizeMax : ℕ) (characters : List StyledHelpCharacter) (helpIndent : List Byte)
    (lineWidth paragraphEnd : ℕ) : ℕ → ℕ → Option (List Written)
  | 0, _ => none
  | fuel + 1, position =>
    if position < paragraphEnd then
      let stop := lineEnd sizeMax characters lineWidth position paragraphEnd
      (writeParagraph sizeMax characters helpIndent lineWidth paragraphEnd fuel
        (skipSpaces characters stop paragraphEnd)).map
          (writeLine helpIndent (slice characters position stop) ++ ·)
    else some []

/-- The loop over the paragraphs. -/
def writeParagraphs (sizeMax : ℕ) (characters : List StyledHelpCharacter) (helpIndent : List Byte)
    (lineWidth : ℕ) : ℕ → ℕ → Option (List Written)
  | 0, _ => none
  | fuel + 1, position =>
    if position < characters.length then do
      let paragraphEnd :=
        position + ((characters.drop position).takeWhile fun c => !isNewline c).length
      let empty :=
        if position = paragraphEnd then writeLine helpIndent (slice characters position position)
        else []
      let lines ← writeParagraph sizeMax characters helpIndent lineWidth paragraphEnd fuel position
      if paragraphEnd = characters.length then some (empty ++ lines)
      else do
        let rest ← writeParagraphs sizeMax characters helpIndent lineWidth fuel (paragraphEnd + 1)
        some (empty ++ lines ++ rest)
    else some []

/-- `WriteWrappedStyledHelp`. Its loops take as many steps as `fuel` at most. -/
def writeWrappedStyledHelp (sizeMax fuel : ℕ) (parts : List (HelpTextStyle × List Byte))
    (helpIndent : List Byte) (lineWidth : ℕ) : Option (List Written) :=
  let characters := flattenStyledHelp parts
  if characters = [] then some [.indent helpIndent, .newline]
  else writeParagraphs sizeMax characters helpIndent lineWidth fuel 0

/-- The width that `PrintHelpSnapshot` passes. -/
def helpWidth (terminalWidth : ℕ) (helpIndent : List Byte) : ℕ :=
  if terminalWidth > helpIndent.length then terminalWidth - helpIndent.length else 1

/-! ### One line -/

theorem writePieces_nil : writePieces [] = [] := by rw [writePieces]

/-- The characters of a piece, with their style. -/
def Written.characters : Written → List StyledHelpCharacter
  | .text style values => values.map fun value => ⟨style, value⟩
  | .indent _ => []
  | .newline => []

/-- The characters that were written, with their styles. -/
def charactersOf (written : List Written) : List StyledHelpCharacter :=
  written.flatMap Written.characters

theorem map_value_of_style {style : HelpTextStyle} {line : List StyledHelpCharacter}
    (h : ∀ character ∈ line, character.style = style) :
    (line.map StyledHelpCharacter.value).map (StyledHelpCharacter.mk style) = line := by
  rw [List.map_map]
  conv => rhs; rw [← List.map_id line]
  refine List.map_congr_left fun character hmem => ?_
  change StyledHelpCharacter.mk style character.value = character
  rw [← h character hmem]

theorem charactersOf_cons (piece : Written) (written : List Written) :
    charactersOf (piece :: written) = piece.characters ++ charactersOf written := List.flatMap_cons

/-- The pieces hold the characters of the line, each in its style. -/
theorem charactersOf_writePieces (line : List StyledHelpCharacter) :
    charactersOf (writePieces line) = line := by
  induction line using writePieces.induct with
  | case1 =>
    rw [writePieces_nil]
    rfl
  | case2 first line ih =>
    have hstyle : ∀ character ∈ first :: line.takeWhile fun c => c.style = first.style,
        character.style = first.style := by
      refine List.forall_mem_cons.mpr ⟨rfl, fun character hmem => ?_⟩
      have hsame := List.mem_takeWhile_imp hmem
      exact of_decide_eq_true hsame
    rw [writePieces, charactersOf_cons, ih]
    change ((first :: _).map StyledHelpCharacter.value).map _ ++ _ = _
    rw [map_value_of_style hstyle, List.cons_append, List.takeWhile_append_dropWhile]

theorem charactersOf_writeLine (helpIndent : List Byte) (line : List StyledHelpCharacter) :
    charactersOf (writeLine helpIndent line) = line := by
  rw [writeLine, List.cons_append, charactersOf_cons, charactersOf, List.flatMap_append]
  change [] ++ (charactersOf (writePieces line) ++ []) = line
  rw [List.nil_append, List.append_nil, charactersOf_writePieces]

theorem charactersOf_lines (helpIndent : List Byte) (lines : List (List StyledHelpCharacter)) :
    charactersOf (lines.flatMap (writeLine helpIndent)) = lines.flatten := by
  induction lines with
  | nil => rfl
  | cons line lines ih =>
    rw [charactersOf] at ih
    have hline := charactersOf_writeLine helpIndent line
    rw [charactersOf] at hline
    rw [charactersOf, List.flatMap_cons, List.flatMap_append, hline, ih, List.flatten_cons]

/-! ### Slices -/

section Slices

variable {characters : List StyledHelpCharacter} {first middle last : ℕ}

theorem length_slice (hlength : last ≤ characters.length) :
    (slice characters first last).length = last - first := by
  rw [slice, List.length_drop, List.length_take_of_le hlength]

theorem slice_self (characters : List StyledHelpCharacter) (first : ℕ) :
    slice characters first first = [] :=
  List.drop_eq_nil_of_le (List.length_take_le ..)

theorem slice_append (hfirst : first ≤ middle) (hmiddle : middle ≤ last) :
    slice characters first middle ++ slice characters middle last = slice characters
      first last := by
  have hprefix : characters.take middle = (characters.take last).take middle := by
    rw [List.take_take, Nat.min_eq_left hmiddle]
  rw [slice, slice, slice, hprefix, List.drop_take,
    ← Nat.add_sub_of_le hfirst, ← List.drop_drop, Nat.add_sub_cancel_left,
    List.take_append_drop]

/-- The beginning of a slice is one. -/
theorem take_slice {count : ℕ} (hlast : first + count ≤ last) :
    (slice characters first last).take count = slice characters first (first + count) := by
  rw [slice, slice, List.take_drop, List.take_take, Nat.min_eq_left hlast]

theorem slice_eq_cons (hfirst : first < last)
    {character : StyledHelpCharacter} (h : characters[first]? = some character) :
    slice characters first last = character :: slice characters (first + 1) last := by
  have htake : (characters.take last)[first]? = some character := by
    rw [List.getElem?_take_of_lt hfirst, h]
  obtain ⟨hlt, hget⟩ := List.getElem?_eq_some_iff.mp htake
  rw [slice, List.drop_eq_getElem_cons hlt, hget, slice]

end Slices

/-! ### Where lines end -/

section Lines

variable {characters : List StyledHelpCharacter} {sizeMax lineWidth position paragraphEnd : ℕ}

/-- A space that is found lies between the two ends of the search. -/
theorem findSpace_eq_some {space found : ℕ}
    (h : findSpace characters position space = some found) :
    position ≤ found ∧ found < space ∧ characters[found]?.any isSpace = true := by
  induction space with
  | zero => cases h
  | succ space ih =>
    rw [findSpace] at h
    split_ifs at h with hposition hspace
    · obtain rfl := Option.some.inj h
      exact ⟨Nat.le_of_lt_succ hposition, Nat.lt_succ_self _, hspace⟩
    · obtain ⟨hle, hlt, hfound⟩ := ih h
      exact ⟨hle, Nat.lt_succ_of_lt hlt, hfound⟩

/-- The spaces that are skipped are those of the paragraph from there on. -/
theorem skipSpaces_spec (hposition : position ≤ paragraphEnd)
    (hend : paragraphEnd ≤ characters.length) :
    position ≤ skipSpaces characters position paragraphEnd ∧
      skipSpaces characters position paragraphEnd ≤ paragraphEnd ∧
      ∀ c ∈ slice characters position (skipSpaces characters position paragraphEnd),
        isSpace c = true := by
  have hle := (List.takeWhile_prefix (l := slice characters position paragraphEnd)
    isSpace).length_le
  rw [length_slice hend] at hle
  refine ⟨Nat.le_add_right .., by rw [skipSpaces]; omega, fun c hc => ?_⟩
  rw [skipSpaces, ← take_slice (by omega : _ ≤ paragraphEnd),
    ← List.prefix_iff_eq_take.mp (List.takeWhile_prefix isSpace)] at hc
  exact List.mem_takeWhile_imp hc

/-- A space at the position is skipped. -/
theorem lt_skipSpaces (hposition : position < paragraphEnd)
    (hspace : characters[position]?.any isSpace = true) :
    position < skipSpaces characters position paragraphEnd := by
  obtain ⟨character, hget, hcharacter⟩ := (Option.any_eq_true ..).mp hspace
  rw [skipSpaces, slice_eq_cons hposition hget, List.takeWhile_cons_of_pos hcharacter,
    List.length_cons]
  omega

/-- A line lies in its paragraph and is no longer than the width; behind it and the spaces after it
there is less of the paragraph left. -/
theorem lineEnd_spec (hposition : position < paragraphEnd) (hend : paragraphEnd ≤ characters.length)
    (hwidth : 1 ≤ lineWidth) (hsize : characters.length + lineWidth ≤ sizeMax) :
    position ≤ lineEnd sizeMax characters lineWidth position paragraphEnd ∧
      lineEnd sizeMax characters lineWidth position paragraphEnd ≤ position + lineWidth ∧
      lineEnd sizeMax characters lineWidth position paragraphEnd ≤ paragraphEnd ∧
      position < skipSpaces characters
        (lineEnd sizeMax characters lineWidth position paragraphEnd) paragraphEnd := by
  have hsum : (position + lineWidth) % (sizeMax + 1) = position + lineWidth :=
    Nat.mod_eq_of_lt (by omega)
  have hskip (stop : ℕ) (hstop : stop ≤ paragraphEnd) := (skipSpaces_spec hstop hend).1
  simp only [lineEnd, hsum]
  split_ifs with hrest
  · rcases hfound : findSpace characters position (min (position + lineWidth) paragraphEnd) with
      _ | found
    · rw [Option.getD_none]
      have hle := hskip (min (position + lineWidth) paragraphEnd) (by omega)
      exact ⟨by omega, by omega, by omega, by omega⟩
    · obtain ⟨hle, hlt, hspace⟩ := findSpace_eq_some hfound
      rw [Option.getD_some]
      have hnext : found < skipSpaces characters found paragraphEnd :=
        lt_skipSpaces (by omega) hspace
      exact ⟨hle, by omega, by omega, by omega⟩
  · have hle := hskip (min (position + lineWidth) paragraphEnd) (by omega)
    exact ⟨by omega, by omega, by omega, by omega⟩

/-- The lines that are written are those of the paragraph from the position on, by induction on the
fuel. -/
theorem writeParagraph_spec (helpIndent : List Byte) (hwidth : 1 ≤ lineWidth)
    (hsize : characters.length + lineWidth ≤ sizeMax) (hend : paragraphEnd ≤ characters.length)
    {fuel : ℕ} (hposition : position ≤ paragraphEnd) (hfuel : paragraphEnd - position < fuel) :
    ∃ lines, Wraps isSpace lineWidth (slice characters position paragraphEnd) lines ∧
      writeParagraph sizeMax characters helpIndent lineWidth paragraphEnd fuel position =
        some (lines.flatMap (writeLine helpIndent)) := by
  induction fuel generalizing position with
  | zero => cases hfuel
  | succ fuel ih =>
    rw [writeParagraph]
    split_ifs with hlt
    · obtain ⟨hle, hlength, hstop, hprogress⟩ :=
        lineEnd_spec hlt hend hwidth hsize
      obtain ⟨hskip, hnext, hspaces⟩ := skipSpaces_spec hstop hend
      obtain ⟨lines, hwraps, hlines⟩ := ih hnext (by omega)
      refine ⟨slice characters position
        (lineEnd sizeMax characters lineWidth position paragraphEnd) :: lines, ?_, ?_⟩
      · rw [← slice_append hle hstop, ← slice_append hskip hnext]
        refine .line ?_ hspaces hwraps
        rw [length_slice (Nat.le_trans hstop hend)]
        omega
      · dsimp only
        rw [hlines, Option.map_some, List.flatMap_cons]
    · obtain rfl : position = paragraphEnd := Nat.le_antisymm hposition (Nat.le_of_not_lt hlt)
      rw [slice_self]
      exact ⟨[], .nil, rfl⟩

end Lines

/-! ### All paragraphs -/

/-- The lines of a paragraph. An empty paragraph has one, which is empty. -/
def WrapsParagraph (lineWidth : ℕ) (paragraph : List StyledHelpCharacter)
    (lines : List (List StyledHelpCharacter)) : Prop :=
  Wraps isSpace lineWidth paragraph lines ∧ (paragraph = [] → lines = [[]])

theorem wrapsParagraph_nil (lineWidth : ℕ) : WrapsParagraph lineWidth [] [[]] := by
  have hblanks : ∀ c ∈ ([] : List StyledHelpCharacter), isSpace c = true :=
    fun _ hmem => absurd hmem List.not_mem_nil
  exact ⟨@Wraps.line _ _ _ [] [] [] [] (Nat.zero_le _) hblanks .nil, fun _ => rfl⟩

section Paragraphs

variable {characters : List StyledHelpCharacter} {sizeMax lineWidth position : ℕ}

/-- The characters before the next newline, and the position behind them. -/
theorem drop_eq_paragraph (characters : List StyledHelpCharacter)
    (hposition : position ≤ characters.length) :
    let paragraphEnd :=
      position + ((characters.drop position).takeWhile fun c => !isNewline c).length
    characters.drop position =
        slice characters position paragraphEnd ++ characters.drop paragraphEnd ∧
      (∀ c ∈ slice characters position paragraphEnd, isNewline c = false) ∧
      paragraphEnd ≤ characters.length ∧
      ∀ c ∈ (characters.drop paragraphEnd).head?, isNewline c = true := by
  intro paragraphEnd
  have hprefix := List.takeWhile_prefix (l := characters.drop position) fun c => !isNewline c
  have hle := hprefix.length_le
  rw [List.length_drop] at hle
  have hslice : slice characters position paragraphEnd =
      (characters.drop position).takeWhile fun c => !isNewline c := by
    rw [slice, ← List.take_drop, ← List.prefix_iff_eq_take.mp hprefix]
  have hdrop : characters.drop paragraphEnd =
      (characters.drop position).dropWhile fun c => !isNewline c := by
    rw [← List.drop_drop]
    conv =>
      lhs
      arg 2
      rw [← List.takeWhile_append_dropWhile (p := fun c => !isNewline c)
        (l := characters.drop position)]
    rw [List.drop_left]
  refine ⟨by rw [hslice, hdrop, List.takeWhile_append_dropWhile], fun c hc => ?_, by omega, ?_⟩
  · rw [hslice] at hc
    have hbreak := List.mem_takeWhile_imp hc
    rwa [Bool.not_eq_true'] at hbreak
  · rw [hdrop]
    intro c hc
    have hhead := List.head?_dropWhile_not (fun c => !isNewline c) (characters.drop position)
    rw [Option.mem_def.mp hc] at hhead
    exact (Bool.not_eq_false' _).mp hhead

/-- One paragraph, with the line of an empty one. -/
theorem writeParagraph_wraps (helpIndent : List Byte) (hwidth : 1 ≤ lineWidth)
    (hsize : characters.length + lineWidth ≤ sizeMax) {paragraphEnd fuel : ℕ}
    (hend : paragraphEnd ≤ characters.length) (hposition : position ≤ paragraphEnd)
    (hfuel : paragraphEnd - position < fuel) :
    ∃ lines written,
      WrapsParagraph lineWidth (slice characters position paragraphEnd) lines ∧
        writeParagraph sizeMax characters helpIndent lineWidth paragraphEnd fuel position =
          some written ∧
        (if position = paragraphEnd then writeLine helpIndent (slice characters position position)
          else []) ++ written = lines.flatMap (writeLine helpIndent) := by
  obtain ⟨lines, hwraps, hlines⟩ :=
    writeParagraph_spec helpIndent hwidth hsize hend hposition hfuel
  -- an empty paragraph has a line of its own, and the loop over its lines writes none
  by_cases hempty : position = paragraphEnd
  · subst hempty
    refine ⟨[[]], [], by rw [slice_self]; exact wrapsParagraph_nil lineWidth, ?_, ?_⟩
    · cases fuel with
      | zero => cases hfuel
      | succ fuel => rw [writeParagraph, if_neg (Nat.lt_irrefl position)]
    · rw [if_pos rfl, slice_self, List.append_nil, List.flatMap_singleton]
  · refine ⟨lines, _, ⟨hwraps, fun hnil => absurd ?_ hempty⟩, hlines, ?_⟩
    · have hlength := congrArg List.length hnil
      rw [length_slice hend, List.length_nil] at hlength
      omega
    · rw [if_neg hempty, List.nil_append]

/-- The lines that are written are those of the paragraphs from the position on, by induction on the
fuel. -/
theorem writeParagraphs_spec (helpIndent : List Byte) (hwidth : 1 ≤ lineWidth)
    (hsize : characters.length + lineWidth ≤ sizeMax) {fuel : ℕ}
    (hposition : position < characters.length) (hfuel : characters.length - position + 1 < fuel) :
    ∃ groups, List.Forall₂ (WrapsParagraph lineWidth)
        (paragraphs isNewline (characters.drop position)) groups ∧
      writeParagraphs sizeMax characters helpIndent lineWidth fuel position =
        some (groups.flatten.flatMap (writeLine helpIndent)) := by
  induction fuel generalizing position with
  | zero => cases hfuel
  | succ fuel ih =>
    obtain ⟨hsplit, hbefore, hend, hnewline⟩ := drop_eq_paragraph characters hposition.le
    have hle := Nat.le_add_right position
      ((characters.drop position).takeWhile fun c => !isNewline c).length
    rw [writeParagraphs, if_pos hposition]
    generalize position + ((characters.drop position).takeWhile fun c => !isNewline c).length =
      paragraphEnd at hsplit hbefore hend hnewline hle ⊢
    obtain ⟨lines, written, hwraps, hwritten, hlines⟩ :=
      @writeParagraph_wraps characters sizeMax lineWidth position helpIndent hwidth hsize
        paragraphEnd fuel hend hle (by omega)
    simp only [hwritten, Option.bind_eq_bind, Option.bind_some]
    by_cases hlast : paragraphEnd = characters.length
    · rw [if_pos hlast, hlines, hsplit, List.drop_eq_nil_of_le hlast.ge, List.append_nil,
        paragraphs_of_no_break hbefore]
      refine ⟨[lines], .cons hwraps .nil, ?_⟩
      rw [List.flatten_singleton]
    · obtain ⟨c, rest, hrest⟩ := List.exists_cons_of_ne_nil
        (List.ne_nil_of_length_pos (l := characters.drop paragraphEnd)
          (by rw [List.length_drop]; omega))
      have hc : isNewline c = true := hnewline c (by rw [hrest]; rfl)
      have htail : rest = characters.drop (paragraphEnd + 1) := by
        rw [← List.drop_drop, hrest, List.drop_one, List.tail_cons]
      have hlength : characters.length - (paragraphEnd + 1) = rest.length := by
        rw [htail, List.length_drop]
      rw [if_neg hlast, hsplit, hrest, hlines]
      by_cases hnil : rest = []
      · obtain ⟨fuel, rfl⟩ : ∃ n, fuel = n + 1 := ⟨fuel - 1, by omega⟩
        rw [hnil, List.length_nil] at hlength
        rw [hnil, paragraphs_concat_break hbefore hc, writeParagraphs, if_neg (by omega)]
        refine ⟨[lines], .cons hwraps .nil, ?_⟩
        rw [Option.bind_some, List.append_nil, List.flatten_singleton]
      · have hpos := List.length_pos_iff.mpr hnil
        obtain ⟨groups, hgroups, hrest⟩ := @ih (paragraphEnd + 1) (by omega) (by omega)
        rw [paragraphs_append_break hbefore hc hnil, htail]
        refine ⟨lines :: groups, .cons hwraps hgroups, ?_⟩
        rw [hrest, Option.bind_some, List.flatten_cons, List.flatMap_append]

end Paragraphs

/-- A character that is neither a space nor a newline. -/
def isVisible (character : StyledHelpCharacter) : Bool := !isSpace character && !isNewline character

/-- For all parts and every width of at least one character whose sum with their number is in the
range of `std::size_t`: the function ends, and what it writes are the lines of the paragraphs. A
line is no longer than the width, and only spaces behind a line are left out. The characters other
than spaces and newlines are written once, in order and in their style. An empty paragraph gives one
empty line. -/
theorem writeWrappedStyledHelp_spec (parts : List (HelpTextStyle × List Byte))
    (helpIndent : List Byte) {lineWidth sizeMax fuel : ℕ} (hwidth : 1 ≤ lineWidth)
    (hsize : (flattenStyledHelp parts).length + lineWidth ≤ sizeMax)
    (hfuel : (flattenStyledHelp parts).length + 2 ≤ fuel) :
    ∃ groups : List (List (List StyledHelpCharacter)),
      writeWrappedStyledHelp sizeMax fuel parts helpIndent lineWidth =
          some (groups.flatten.flatMap (writeLine helpIndent)) ∧
        List.Forall₂ (WrapsParagraph lineWidth)
          (paragraphs isNewline (flattenStyledHelp parts)) groups ∧
        (∀ line ∈ groups.flatten,
          line.length ≤ lineWidth ∧ charactersOf (writeLine helpIndent line) = line) ∧
        (charactersOf (groups.flatten.flatMap (writeLine helpIndent))).filter isVisible =
          (flattenStyledHelp parts).filter isVisible := by
  obtain ⟨groups, hgroups, hwritten⟩ : ∃ groups,
      List.Forall₂ (WrapsParagraph lineWidth) (paragraphs isNewline (flattenStyledHelp parts))
        groups ∧
      writeWrappedStyledHelp sizeMax fuel parts helpIndent lineWidth =
        some (groups.flatten.flatMap (writeLine helpIndent)) := by
    rw [writeWrappedStyledHelp]
    generalize flattenStyledHelp parts = characters at hsize hfuel ⊢
    by_cases hempty : characters = []
    · rw [hempty, if_pos rfl]
      refine ⟨[[[]]], .cons (wrapsParagraph_nil lineWidth) .nil, ?_⟩
      rw [List.flatten_singleton, List.flatMap_singleton, writeLine, writePieces_nil]
      rfl
    · have hpos := List.length_pos_iff.mpr hempty
      rw [if_neg hempty]
      have hall := writeParagraphs_spec helpIndent hwidth hsize hpos (by omega : _ < fuel)
      rwa [List.drop_zero] at hall
  have hwraps : List.Forall₂ (Wraps isSpace lineWidth) _ groups := hgroups.imp fun _ _ h => h.1
  refine ⟨groups, hwritten, hgroups, fun line hline => ⟨Wraps.length_le_forall₂ hwraps line hline,
    charactersOf_writeLine ..⟩, ?_⟩
  rw [charactersOf_lines]
  refine filter_flatten_wraps hwraps (fun character h => ?_) fun character h => ?_
  · rw [isVisible, h, Bool.not_true, Bool.false_and]
  · rw [isVisible, h, Bool.not_true, Bool.and_false]

/-- A width of one character, which neither the word nor the spaces before it fit. -/
theorem writeWrappedStyledHelp_spec_narrow : ∃ groups : List (List (List StyledHelpCharacter)),
    writeWrappedStyledHelp 100 8 [(.kPlain, bytes "  "), (.kCode, bytes "ab")] [] 1 =
        some (groups.flatten.flatMap (writeLine [])) ∧
      (charactersOf (groups.flatten.flatMap (writeLine []))).filter isVisible =
        [⟨.kCode, 0x61⟩, ⟨.kCode, 0x62⟩] := by
  obtain ⟨groups, hwritten, -, -, hvisible⟩ :=
    writeWrappedStyledHelp_spec [(.kPlain, bytes "  "), (.kCode, bytes "ab")] []
      (Nat.le_refl 1) (by decide : _ ≤ 100) (by decide : _ ≤ 8)
  exact ⟨groups, hwritten, hvisible.trans (by decide)⟩

/-- With the greatest width the second paragraph ends before the first one: its line starts again
with the first paragraph, and the character of that is written twice. -/
theorem writeWrappedStyledHelp_repeats :
    ¬ ∀ (parts : List (HelpTextStyle × List Byte)) (helpIndent : List Byte) (lineWidth fuel : ℕ),
      1 ≤ lineWidth → lineWidth ≤ 18446744073709551615 →
      (flattenStyledHelp parts).length + 2 ≤ fuel →
      ∃ written, writeWrappedStyledHelp 18446744073709551615 fuel parts helpIndent lineWidth =
          some written ∧
        (charactersOf written).filter isVisible = (flattenStyledHelp parts).filter isVisible := by
  intro hall
  obtain ⟨written, hwritten, hvisible⟩ := hall [(.kPlain, bytes "a\nbc")] [] 18446744073709551615 10
    (by decide) (by decide) (by decide +kernel)
  have htwice : (writeWrappedStyledHelp 18446744073709551615 10 [(.kPlain, bytes "a\nbc")] []
      18446744073709551615).map (fun written => (charactersOf written).filter isVisible) =
        some [⟨.kPlain, 0x61⟩, ⟨.kPlain, 0x61⟩, ⟨.kPlain, 0x62⟩, ⟨.kPlain, 0x63⟩] := by
    decide +kernel
  rw [hwritten, Option.map_some, hvisible] at htwice
  exact absurd htwice (by decide +kernel)

/-- The width that is passed is positive and, but for a terminal of no width, no more than that of
the terminal. -/
theorem helpWidth_bounds (terminalWidth : ℕ) (helpIndent : List Byte) :
    1 ≤ helpWidth terminalWidth helpIndent ∧
      helpWidth terminalWidth helpIndent ≤ max terminalWidth 1 := by
  rw [helpWidth]
  split <;> omega

end Help

end NgLog
