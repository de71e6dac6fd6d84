import NgLog.Support.CStrings
import NgLog.Support.Terminal

/-!
# Color sequences

`ColorSpec::FormatAnsiSequence` writes the control sequence that selects a style and two colors. The
sequence is written completely or not at all, and a terminal that reads it shows what follows as the
specification says.

## Main definitions

* `ColorSpec`, `formatAnsiSequence` — the function
* `ColorSpec.pen` — how text with the specification is shown

## Main results

* `formatAnsiSequence_spec` — what the array holds
* `feed_sequence` — what the terminal selects
-/

namespace NgLog

namespace Styled

open Numeral (numeral)
open Terminal (joinCodes selectSequence)

inductive Color
  | kDefault
  | kBlack
  | kRed
  | kGreen
  | kYellow
  | kBlue
  | kMagenta
  | kCyan
  | kWhite
  | kGray
  | kBrightRed
  | kBrightGreen
  | kBrightYellow
  | kBrightBlue
  | kBrightMagenta
  | kBrightCyan
  | kBrightWhite
  deriving DecidableEq

structure RgbColor where
  red : UInt8
  green : UInt8
  blue : UInt8
  deriving DecidableEq

inductive ColorValue
  | kNamed (named : Color)
  | kRgb (rgb : RgbColor)
  deriving DecidableEq

/-- Flags of a style. -/
abbrev TextStyle : Type := UInt32

def TextStyle.kNone : TextStyle := 0
def TextStyle.kBold : TextStyle := (1 : UInt32) <<< 0
def TextStyle.kDim : TextStyle := (1 : UInt32) <<< 1
def TextStyle.kItalic : TextStyle := (1 : UInt32) <<< 2
def TextStyle.kUnderline : TextStyle := (1 : UInt32) <<< 3

structure ColorSpec where
  foreground : ColorValue
  style : TextStyle
  background : ColorValue
  deriving DecidableEq

def kMaxAnsiSequenceSize : ℕ := 48

def kSgrBold : ℤ := 1
def kSgrDim : ℤ := 2
def kSgrItalic : ℤ := 3
def kSgrUnderline : ℤ := 4
def kSgrForegroundDefault : ℤ := 39
def kSgrBackgroundDefault : ℤ := 49
def kSgrForegroundBase : ℤ := 30
def kSgrForegroundBrightBase : ℤ := 90
def kSgrBackgroundBase : ℤ := 40
def kSgrBackgroundBrightBase : ℤ := 100
def kSgrForegroundExtended : ℤ := 38
def kSgrBackgroundExtended : ℤ := 48
def kSgrExtendedColorRgb : ℤ := 2
def kMaxSgrCodeDigits : ℕ := 3

/-- `NamedColorOffset`, with -1 for the default color. -/
def namedColorOffset : Color → ℤ
  | .kDefault => -1
  | .kBlack | .kGray => 0
  | .kRed | .kBrightRed => 1
  | .kGreen | .kBrightGreen => 2
  | .kYellow | .kBrightYellow => 3
  | .kBlue | .kBrightBlue => 4
  | .kMagenta | .kBrightMagenta => 5
  | .kCyan | .kBrightCyan => 6
  | .kWhite | .kBrightWhite => 7

def isBrightColor : Color → Bool
  | .kDefault | .kBlack | .kRed | .kGreen | .kYellow | .kBlue | .kMagenta | .kCyan | .kWhite =>
    false
  | .kGray | .kBrightRed | .kBrightGreen | .kBrightYellow | .kBrightBlue | .kBrightMagenta
  | .kBrightCyan | .kBrightWhite => true

def namedColorSgrCode (color : Color) (isBackground : Bool) : ℤ :=
  let offset := namedColorOffset color
  if offset < 0 then if isBackground then kSgrBackgroundDefault else kSgrForegroundDefault
  else
    let base :=
      if isBackground then
        if isBrightColor color then kSgrBackgroundBrightBase else kSgrBackgroundBase
      else if isBrightColor color then kSgrForegroundBrightBase else kSgrForegroundBase
    base + offset

/-- `FormatSmallUint`, with the digits that have been written and the room in front of them. -/
def formatSmallUint : (room value : ℕ) → (digits : List Byte) → List Byte
  | 0, _, digits => digits
  | room + 1, value, digits =>
    let digits := UInt8.ofNat (0x30 + value % 10) :: digits
    if value / 10 ≠ 0 ∧ room ≠ 0 then formatSmallUint room (value / 10) digits else digits

/-- The variables of `FormatAnsiSequence`. -/
structure Cursor where
  buffer : Buffer
  fits : Bool
  first : Bool

namespace Cursor

/-- `append_char`. The last byte of the array is for the terminator. -/
def appendChar (s : Cursor) (c : Byte) : Cursor :=
  if 1 < s.buffer.rest.length then { s with buffer := s.buffer.advance [c] }
  else { s with fits := false }

/-- `append_code` -/
def appendCode (s : Cursor) (code : ℤ) : Cursor :=
  let s := if !s.first then s.appendChar Terminal.semicolon else s
  let s := (formatSmallUint kMaxSgrCodeDigits code.toNat []).foldl appendChar s
  { s with first := false }

/-- `append_color` -/
def appendColor (s : Cursor) (value : ColorValue) (isBackground : Bool) : Cursor :=
  match value with
  | .kRgb rgb =>
    s.appendCode (if isBackground then kSgrBackgroundExtended else kSgrForegroundExtended)
      |>.appendCode kSgrExtendedColorRgb |>.appendCode rgb.red.toNat |>.appendCode rgb.green.toNat
      |>.appendCode rgb.blue.toNat
  | .kNamed named => s.appendCode (namedColorSgrCode named isBackground)

/-- `append_code` if the style has the flag. -/
def appendStyle (s : Cursor) (style flag : TextStyle) (code : ℤ) : Cursor :=
  if style &&& flag ≠ TextStyle.kNone then s.appendCode code else s

/-- The sequence of `FormatAnsiSequence`. -/
def appendSpec (s : Cursor) (spec : ColorSpec) : Cursor :=
  let s := s.appendChar Terminal.escape |>.appendChar Terminal.bracket
  let s := s.appendStyle spec.style .kBold kSgrBold
  let s := s.appendStyle spec.style .kDim kSgrDim
  let s := s.appendStyle spec.style .kItalic kSgrItalic
  let s := s.appendStyle spec.style .kUnderline kSgrUnderline
  let s := s.appendColor spec.foreground false
  let s := if spec.background ≠ .kNamed .kDefault then s.appendColor spec.background true else s
  s.appendChar Terminal.final

end Cursor

/-- `ColorSpec::FormatAnsiSequence` -/
def formatAnsiSequence (spec : ColorSpec) (out : List Byte) : List Byte :=
  if out.length = 0 then out
  else
    let s := Cursor.appendSpec ⟨⟨[], out⟩, true, true⟩ spec
    if s.fits then s.buffer.written ++ 0 :: s.buffer.rest.drop 1 else s.buffer.contents.set 0 0

/-! ### The sequence -/

/-- The numbers of a color. -/
def ColorValue.codes (isBackground : Bool) : ColorValue → List ℕ
  | .kRgb rgb =>
    [if isBackground then 48 else 38, 2, rgb.red.toNat, rgb.green.toNat, rgb.blue.toNat]
  | .kNamed named => [(namedColorSgrCode named isBackground).toNat]

/-- The number of a flag of the style, if it is set. -/
def styleCode (style flag : TextStyle) (code : ℕ) : List ℕ :=
  if style &&& flag ≠ TextStyle.kNone then [code] else []

/-- The numbers of the sequence. -/
def ColorSpec.codes (spec : ColorSpec) : List ℕ :=
  styleCode spec.style .kBold 1 ++ styleCode spec.style .kDim 2 ++
    styleCode spec.style .kItalic 3 ++ styleCode spec.style .kUnderline 4 ++
    spec.foreground.codes false ++
    if spec.background ≠ .kNamed .kDefault then spec.background.codes true else []

/-- The sequence of a specification. -/
def ColorSpec.sequence (spec : ColorSpec) : List Byte := selectSequence spec.codes

/-! ### What is written -/

/-- All digits of a small number fit. -/
theorem formatSmallUint_eq {room value : ℕ} (hroom : 0 < room) (h : value < 10 ^ room)
    (digits : List Byte) : formatSmallUint room value digits = numeral 10 value ++ digits := by
  induction room generalizing value digits with
  | zero => exact absurd hroom (Nat.lt_irrefl 0)
  | succ room ih =>
    have hdigit : UInt8.ofNat (0x30 + value % 10) = Numeral.digitByte (value % 10) := by
      rw [Numeral.digitByte, if_pos (Nat.mod_lt _ (by decide))]
    rw [formatSmallUint, hdigit]
    by_cases hvalue : value < 10
    · rw [if_neg (by omega), Numeral.numeral_of_lt hvalue, Nat.mod_eq_of_lt hvalue]
      rfl
    · have hpow : value / 10 < 10 ^ room := by
        rw [Nat.pow_succ] at h
        omega
      have hpos : 0 < room := by
        refine Nat.pos_of_ne_zero fun hzero => ?_
        rw [hzero] at h
        omega
      rw [if_pos (by omega), ih hpos hpow, Numeral.numeral_of_le (by decide)
        (Nat.le_of_not_lt hvalue),
        List.append_assoc]
      rfl

/-- The array holds what fits of some text, and the cursor knows whether all of it does. -/
structure Cursor.Holds (out text : List Byte) (s : Cursor) : Prop where
  buffer : s.buffer = Buffer.advance (text.take (out.length - 1)) ⟨[], out⟩
  fits : s.fits = decide (text.length < out.length)

variable {out text : List Byte} {s : Cursor}

theorem Cursor.Holds.appendChar (hout : 0 < out.length) (h : s.Holds out text) (c : Byte) :
    (s.appendChar c).Holds out (text ++ [c]) := by
  have hrest : s.buffer.rest.length = out.length - min (out.length - 1) text.length := by
    rw [h.buffer, Buffer.length_advance, List.length_take]
  rw [Cursor.appendChar]
  by_cases hlength : text.length < out.length - 1
  · rw [if_pos (by omega)]
    refine ⟨?_, ?_⟩
    · show s.buffer.advance [c] = _
      rw [h.buffer, ← Buffer.advance_append, List.take_of_length_le (Nat.le_of_lt hlength),
        List.take_of_length_le (by rw [List.length_append, List.length_singleton]; omega)]
    · show s.fits = _
      rw [h.fits, List.length_append, List.length_singleton]
      exact decide_eq_decide.mpr (by omega)
  · rw [if_neg (by omega)]
    refine ⟨?_, ?_⟩
    · show s.buffer = _
      rw [h.buffer, List.take_append_of_le_length (Nat.le_of_not_lt hlength)]
    · show false = _
      rw [List.length_append, List.length_singleton]
      exact (decide_eq_false (by omega)).symm

theorem Cursor.Holds.appendChars (hout : 0 < out.length) (h : s.Holds out text)
    (chars : List Byte) :
    (chars.foldl Cursor.appendChar s).Holds out (text ++ chars) := by
  induction chars generalizing s text with
  | nil =>
    rw [List.append_nil]
    exact h
  | cons c chars ih =>
    have hchars := ih (h.appendChar hout c)
    rwa [List.append_assoc, List.singleton_append] at hchars

theorem first_appendChar (s : Cursor) (c : Byte) : (s.appendChar c).first = s.first := by
  rw [Cursor.appendChar]
  split <;> rfl

/-- The array holds what fits of the numbers so far. -/
structure Cursor.HoldsCodes (out : List Byte) (codes : List ℕ) (s : Cursor) : Prop where
  holds : s.Holds out (Terminal.escape :: Terminal.bracket :: joinCodes codes)
  first : s.first = codes.isEmpty

theorem Cursor.HoldsCodes.appendCode (hout : 0 < out.length) {codes : List ℕ}
    (h : s.HoldsCodes out codes) {code : ℤ} (hcode : code.toNat < 1000) :
    (s.appendCode code).HoldsCodes out (codes ++ [code.toNat]) := by
  rw [Cursor.appendCode, formatSmallUint_eq (by decide) hcode, List.append_nil]
  have hfirst : (codes ++ [code.toNat]).isEmpty = false := by
    rw [List.isEmpty_eq_false_iff]
    exact List.concat_ne_nil _ _
  cases codes with
  | nil =>
    rw [show (!s.first) = false by rw [h.first]; rfl, if_neg Bool.false_ne_true]
    have hholds := h.holds.appendChars hout (numeral 10 code.toNat)
    exact ⟨⟨hholds.buffer, hholds.fits⟩, hfirst.symm⟩
  | cons before codes =>
    rw [show (!s.first) = true by rw [h.first]; rfl, if_pos rfl]
    have hholds := (h.holds.appendChar hout Terminal.semicolon).appendChars hout
      (numeral 10 code.toNat)
    rw [List.cons_append, List.cons_append, List.cons_append, List.cons_append, List.append_assoc,
      List.singleton_append, ← Terminal.joinCodes_concat (List.cons_ne_nil _ _)] at hholds
    exact ⟨⟨hholds.buffer, hholds.fits⟩, hfirst.symm⟩

theorem Cursor.HoldsCodes.appendStyle (hout : 0 < out.length) {codes : List ℕ}
    (h : s.HoldsCodes out codes) (style flag : TextStyle) (code : ℤ) (hcode : code.toNat < 1000) :
    (s.appendStyle style flag code).HoldsCodes out (codes ++ styleCode style flag code.toNat) := by
  rw [Cursor.appendStyle, styleCode]
  split
  · exact h.appendCode hout hcode
  · rw [List.append_nil]
    exact h

theorem namedColorSgrCode_lt (color : Color) (isBackground : Bool) :
    (namedColorSgrCode color isBackground).toNat < 1000 := by
  cases color <;> cases isBackground <;> decide

theorem Cursor.HoldsCodes.appendColor (hout : 0 < out.length) {codes : List ℕ}
    (h : s.HoldsCodes out codes) (value : ColorValue) (isBackground : Bool) :
    (s.appendColor value isBackground).HoldsCodes out (codes ++ value.codes isBackground) := by
  cases value with
  | kNamed named => exact h.appendCode hout (namedColorSgrCode_lt named isBackground)
  | kRgb rgb =>
    have hextended :
        (if isBackground then kSgrBackgroundExtended else kSgrForegroundExtended).toNat =
          if isBackground then 48 else 38 := by cases isBackground <;> rfl
    have hbyte : ∀ c : UInt8, ((c.toNat : ℤ)).toNat < 1000 := fun c => by
      have := c.toNat_lt
      omega
    have hsmall :
        (if isBackground then kSgrBackgroundExtended else kSgrForegroundExtended).toNat <
          1000 := by
      rw [hextended]
      split <;> decide
    have htwo : kSgrExtendedColorRgb.toNat < 1000 := by decide
    have hcodes := (((h.appendCode hout hsmall).appendCode hout htwo).appendCode hout
      (hbyte rgb.red)).appendCode hout (hbyte rgb.green) |>.appendCode hout (hbyte rgb.blue)
    rw [hextended] at hcodes
    simp only [List.append_assoc, Int.toNat_natCast] at hcodes
    exact hcodes

/-- A specification always has a foreground color. -/
theorem ColorSpec.codes_ne_nil (spec : ColorSpec) : spec.codes ≠ [] := by
  rw [ColorSpec.codes]
  cases spec.foreground <;> simp [ColorValue.codes]

/-! ### Its length -/

/-- The length of the numbers with a semicolon behind each. -/
def codesLength (codes : List ℕ) : ℕ := (codes.map fun code => (numeral 10 code).length + 1).sum

theorem codesLength_append (codes codes' : List ℕ) :
    codesLength (codes ++ codes') = codesLength codes + codesLength codes' := by
  rw [codesLength, List.map_append, List.sum_append]
  rfl

theorem length_joinCodes_le (codes : List ℕ) : (joinCodes codes).length ≤ codesLength codes := by
  induction codes with
  | nil => exact Nat.le_refl 0
  | cons code codes ih =>
    have hcons : codesLength (code :: codes) = (numeral 10 code).length + 1 +
        codesLength codes := rfl
    cases codes with
    | nil => exact Nat.le_succ _
    | cons next codes =>
      rw [Terminal.joinCodes_cons (List.cons_ne_nil _ _), List.length_append,
        List.length_cons, hcons]
      omega

theorem codesLength_singleton {code : ℕ} (h : code < 1000) : codesLength [code] ≤ 4 := by
  have hlength : (numeral 10 code).length ≤ 3 := Numeral.length_numeral_le (by decide) (by decide) h
  show (numeral 10 code).length + 1 + 0 ≤ 4
  omega

theorem codesLength_styleCode (style flag : TextStyle) (code : ℕ) (h : code < 10) :
    codesLength (styleCode style flag code) ≤ 2 := by
  rw [styleCode]
  split
  · show (numeral 10 code).length + 1 + 0 ≤ 2
    rw [Numeral.numeral_of_lt h, List.length_singleton]
  · exact Nat.zero_le 2

theorem codesLength_codes (value : ColorValue) (isBackground : Bool) :
    codesLength (value.codes isBackground) ≤ 17 := by
  cases value with
  | kNamed named =>
    exact Nat.le_trans (codesLength_singleton (namedColorSgrCode_lt named isBackground)) (by decide)
  | kRgb rgb =>
    have hextended : codesLength [if isBackground then 48 else 38] ≤ 3 := by
      cases isBackground <;> decide
    have htwo : codesLength [2] = 2 := by decide
    have hbyte : ∀ c : UInt8, codesLength [c.toNat] ≤ 4 := fun c =>
      codesLength_singleton (Nat.lt_trans c.toNat_lt (by decide))
    have hred := hbyte rgb.red
    have hgreen := hbyte rgb.green
    have hblue := hbyte rgb.blue
    have hsplit : ColorValue.codes isBackground (.kRgb rgb) =
        [if isBackground then 48 else 38] ++ ([2] ++
          ([rgb.red.toNat] ++ ([rgb.green.toNat] ++ [rgb.blue.toNat]))) := rfl
    rw [hsplit, codesLength_append, codesLength_append, codesLength_append, codesLength_append]
    omega

/-- Every sequence fits into an array of `kMaxAnsiSequenceSize` bytes. -/
theorem length_sequence_lt (spec : ColorSpec) : spec.sequence.length < kMaxAnsiSequenceSize := by
  have hbold := codesLength_styleCode spec.style .kBold 1 (by decide)
  have hdim := codesLength_styleCode spec.style .kDim 2 (by decide)
  have hitalic := codesLength_styleCode spec.style .kItalic 3 (by decide)
  have hunderline := codesLength_styleCode spec.style .kUnderline 4 (by decide)
  have hforeground := codesLength_codes spec.foreground false
  have hbackground : codesLength (if spec.background ≠ .kNamed .kDefault then
      spec.background.codes true
        else []) ≤ 17 := by
    split
    · exact codesLength_codes spec.background true
    · exact Nat.zero_le 17
  have hcodes := length_joinCodes_le spec.codes
  rw [ColorSpec.codes] at hcodes
  simp only [codesLength_append] at hcodes
  rw [ColorSpec.sequence, selectSequence, ColorSpec.codes, kMaxAnsiSequenceSize]
  simp only [List.length_append, List.length_cons, List.length_nil] at hcodes ⊢
  omega

theorem zero_notMem_joinCodes (codes : List ℕ) : 0 ∉ joinCodes codes := by
  have hnumeral : ∀ code, 0 ∉ numeral 10 code := fun code =>
    Numeral.zero_notMem_numeral (by decide) (by decide)
  induction codes with
  | nil => exact List.not_mem_nil
  | cons code codes ih =>
    cases codes with
    | nil => exact hnumeral code
    | cons next codes =>
      rw [Terminal.joinCodes_cons (List.cons_ne_nil _ _), List.mem_append, List.mem_cons,
        not_or, not_or]
      exact ⟨hnumeral code, by decide, ih⟩

theorem zero_notMem_sequence (spec : ColorSpec) : 0 ∉ spec.sequence := by
  rw [ColorSpec.sequence, selectSequence, List.mem_append, List.mem_cons, List.mem_cons]
  simp only [not_or]
  exact ⟨⟨by decide, by decide, zero_notMem_joinCodes spec.codes⟩, by decide⟩

theorem holds_appendSpec (spec : ColorSpec) (hout : 0 < out.length) :
    (Cursor.appendSpec ⟨⟨[], out⟩, true, true⟩ spec).Holds out spec.sequence := by
  have hstart : Cursor.HoldsCodes out []
      ((Cursor.appendChar ⟨⟨[], out⟩, true, true⟩ Terminal.escape).appendChar
        Terminal.bracket) := by
    refine ⟨?_, by rw [first_appendChar, first_appendChar]; rfl⟩
    have hempty : Cursor.Holds out [] ⟨⟨[], out⟩, true, true⟩ :=
      ⟨by rw [List.take_nil, Buffer.advance_nil], (decide_eq_true hout).symm⟩
    exact (hempty.appendChar hout Terminal.escape).appendChar hout Terminal.bracket
  have hbold := hstart.appendStyle hout spec.style .kBold kSgrBold (by decide)
  have hdim := hbold.appendStyle hout spec.style .kDim kSgrDim (by decide)
  have hitalic := hdim.appendStyle hout spec.style .kItalic kSgrItalic (by decide)
  have hunderline := hitalic.appendStyle hout spec.style .kUnderline kSgrUnderline (by decide)
  have hforeground := hunderline.appendColor hout spec.foreground false
  rw [List.nil_append] at hforeground
  rw [Cursor.appendSpec, ColorSpec.sequence, selectSequence, ColorSpec.codes]
  split
  · exact (hforeground.appendColor hout spec.background true).holds.appendChar hout Terminal.final
  · rw [List.append_nil]
    exact hforeground.holds.appendChar hout Terminal.final

/-- The array holds the whole sequence if there is room for it and a terminator, and else
nothing. -/
theorem formatAnsiSequence_spec (spec : ColorSpec) (hout : 0 < out.length) :
    (formatAnsiSequence spec out).length = out.length ∧
      HoldsString (formatAnsiSequence spec out)
        (if spec.sequence.length < out.length then spec.sequence else []) := by
  obtain ⟨hbuffer, hfits⟩ := holds_appendSpec spec hout
  rw [formatAnsiSequence, if_neg (Nat.ne_of_gt hout)]
  dsimp only
  rw [hfits, hbuffer]
  by_cases hlength : spec.sequence.length < out.length
  · have hall : spec.sequence.take (out.length - 1) = spec.sequence :=
      List.take_of_length_le (by omega)
    rw [decide_eq_true hlength, if_pos rfl, if_pos hlength, hall]
    refine ⟨?_, zero_notMem_sequence spec, _, rfl⟩
    simp only [Buffer.advance, List.nil_append, List.length_append, List.length_cons,
      List.length_drop]
    omega
  · rw [decide_eq_false hlength, if_neg Bool.false_ne_true, if_neg hlength]
    have hcontents :
      (Buffer.advance (spec.sequence.take (out.length - 1)) ⟨[], out⟩).contents.length =
        out.length := by
      rw [Buffer.contents_advance, List.length_append, List.length_drop, List.length_take]
      omega
    generalize (Buffer.advance (spec.sequence.take (out.length - 1)) ⟨[], out⟩).contents = contents
      at hcontents
    refine ⟨by rw [List.length_set, hcontents], List.not_mem_nil, contents.drop 1, ?_⟩
    obtain ⟨c, rest, rfl⟩ := List.exists_cons_of_length_pos (hcontents ▸ hout)
    rfl

/-! ### What it selects -/

/-- Where a color stands in the palette of a terminal: first the eight colors, then their bright
variants, the first of which is gray. -/
def Color.shade : Color → Shade
  | .kDefault => .default
  | .kBlack => .palette 0
  | .kRed => .palette 1
  | .kGreen => .palette 2
  | .kYellow => .palette 3
  | .kBlue => .palette 4
  | .kMagenta => .palette 5
  | .kCyan => .palette 6
  | .kWhite => .palette 7
  | .kGray => .palette 8
  | .kBrightRed => .palette 9
  | .kBrightGreen => .palette 10
  | .kBrightYellow => .palette 11
  | .kBrightBlue => .palette 12
  | .kBrightMagenta => .palette 13
  | .kBrightCyan => .palette 14
  | .kBrightWhite => .palette 15

/-- The color that a terminal shows. -/
def ColorValue.shade : ColorValue → Shade
  | .kRgb rgb => .rgb rgb.red.toNat rgb.green.toNat rgb.blue.toNat
  | .kNamed named => named.shade

/-- How text with the specification is shown, in a hyperlink or not. -/
def ColorSpec.pen (spec : ColorSpec) (link : List Byte) : Pen where
  bold := spec.style &&& .kBold ≠ TextStyle.kNone
  dim := spec.style &&& .kDim ≠ TextStyle.kNone
  italic := spec.style &&& .kItalic ≠ TextStyle.kNone
  underline := spec.style &&& .kUnderline ≠ TextStyle.kNone
  foreground := spec.foreground.shade
  background := spec.background.shade
  link := link

/-- The style has the flag. -/
def TextStyle.has (style flag : TextStyle) : Bool := style &&& flag ≠ TextStyle.kNone

/-- A flag of the style is selected if it is set. -/
theorem select_styleCode {code : ℕ} (set : Bool → Pen → Pen) (hfalse : ∀ pen, set false pen = pen)
    (htrue : ∀ codes pen, select (code :: codes) pen = select codes (set true pen))
    (style flag : TextStyle) (codes : List ℕ) (pen : Pen) :
    select (styleCode style flag code ++ codes) pen = select codes (set (style.has flag) pen) := by
  rw [styleCode, TextStyle.has]
  by_cases h : style &&& flag ≠ TextStyle.kNone
  · rw [if_pos h, decide_eq_true h, List.singleton_append, htrue]
  · rw [if_neg h, decide_eq_false h, hfalse, List.nil_append]

theorem select_bold (style : TextStyle) (codes : List ℕ) (pen : Pen) :
    select (styleCode style .kBold 1 ++ codes) pen =
      select codes { pen with bold := pen.bold || style.has .kBold } :=
  select_styleCode (fun has pen => { pen with bold := pen.bold || has }) (fun _ => by simp)
    (fun _ _ => by rw [Bool.or_true]; rfl) style _ codes pen

theorem select_dim (style : TextStyle) (codes : List ℕ) (pen : Pen) :
    select (styleCode style .kDim 2 ++ codes) pen =
      select codes { pen with dim := pen.dim || style.has .kDim } :=
  select_styleCode (fun has pen => { pen with dim := pen.dim || has }) (fun _ => by simp)
    (fun _ _ => by rw [Bool.or_true]; rfl) style _ codes pen

theorem select_italic (style : TextStyle) (codes : List ℕ) (pen : Pen) :
    select (styleCode style .kItalic 3 ++ codes) pen =
      select codes { pen with italic := pen.italic || style.has .kItalic } :=
  select_styleCode (fun has pen => { pen with italic := pen.italic || has }) (fun _ => by simp)
    (fun _ _ => by rw [Bool.or_true]; rfl) style _ codes pen

theorem select_underline (style : TextStyle) (codes : List ℕ) (pen : Pen) :
    select (styleCode style .kUnderline 4 ++ codes) pen =
      select codes { pen with underline := pen.underline || style.has .kUnderline } :=
  select_styleCode (fun has pen => { pen with underline := pen.underline || has })
    (fun _ => by simp)
    (fun _ _ => by rw [Bool.or_true]; rfl) style _ codes pen

theorem select_foreground (value : ColorValue) (codes : List ℕ) (pen : Pen) :
    select (value.codes false ++ codes) pen = select codes
    { pen with foreground := value.shade } := by
  cases value with
  | kRgb rgb => rfl
  | kNamed named => cases named <;> rfl

theorem select_background (value : ColorValue) (pen : Pen) :
    select (value.codes true) pen = { pen with background := value.shade } := by
  cases value with
  | kRgb rgb => rfl
  | kNamed named => cases named <;> rfl

/-- On a terminal on which no style and no color is selected, the sequence selects those of the
specification. -/
theorem feed_sequence (spec : ColorSpec) (link : List Byte) (shown : List (Byte × Pen)) :
    Terminal.feed (Terminal.idle { Pen.plain with link := link } shown) spec.sequence =
      Terminal.idle (spec.pen link) shown := by
  rw [ColorSpec.sequence, Terminal.feed_select spec.codes_ne_nil]
  refine congrArg (Terminal.idle · shown) ?_
  rw [ColorSpec.codes]
  simp only [List.append_assoc]
  rw [select_bold, select_dim, select_italic, select_underline, select_foreground]
  by_cases h : spec.background = .kNamed .kDefault
  · rw [if_neg (not_not_intro h), select, ColorSpec.pen, h]
    simp [Pen.plain, TextStyle.has, ColorValue.shade, Color.shade]
  · rw [if_pos h, select_background, ColorSpec.pen]
    simp [Pen.plain, TextStyle.has]

/-- For every specification and array: the array is left with a string in it. Either that is empty,
which happens only with an array smaller than `kMaxAnsiSequenceSize`; or a terminal on which nothing
is selected reads it as a selection of the colors and the styles of the specification, and shows
none of it. -/
theorem formatAnsiSequence_selects (spec : ColorSpec) (hout : 0 < out.length) :
    (formatAnsiSequence spec out).length = out.length ∧
      ∃ text, HoldsString (formatAnsiSequence spec out) text ∧
        (text = [] ∧ out.length < kMaxAnsiSequenceSize ∨ ∀ link shown,
          Terminal.feed (Terminal.idle { Pen.plain with link := link } shown) text =
            Terminal.idle (spec.pen link) shown) := by
  obtain ⟨hlength, hholds⟩ := formatAnsiSequence_spec spec hout
  have hmax := length_sequence_lt spec
  refine ⟨hlength, _, hholds, ?_⟩
  by_cases hfits : spec.sequence.length < out.length
  · rw [if_pos hfits]
    exact .inr (feed_sequence spec)
  · rw [if_neg hfits]
    exact .inl ⟨rfl, by omega⟩

/-- A bold red, on an array in which every sequence fits. -/
theorem formatAnsiSequence_selects_bold :
    ∃ text, HoldsString (formatAnsiSequence ⟨.kNamed .kRed, .kBold, .kNamed .kDefault⟩
        (List.replicate kMaxAnsiSequenceSize 1)) text ∧
      ∀ link shown,
        Terminal.feed (Terminal.idle { Pen.plain with link := link } shown) text =
          Terminal.idle ⟨true, false, false, false, .palette 1, .default, link⟩ shown := by
  obtain ⟨-, text, hholds, hselects⟩ :=
    formatAnsiSequence_selects ⟨.kNamed .kRed, .kBold, .kNamed .kDefault⟩
      (show 0 < (List.replicate kMaxAnsiSequenceSize (1 : Byte)).length by decide)
  refine ⟨text, hholds, hselects.resolve_left fun hempty => ?_⟩
  rw [List.length_replicate] at hempty
  exact Nat.lt_irrefl _ hempty.2

end Styled

end NgLog
