import NgLog.SignalSafe.FloatSpec
import NgLog.SignalSafe.WideMessage

/-!
# Floating-point arguments in signal handlers

`FormatSignalSafeFloat` takes the digits of `std::to_chars`, chooses the sign, and puts the padding
before the sign, between the sign and the body, or on both sides of them. It writes to a buffer of
fixed size without any check: the limits of the specification have to be enough.

A floating-point type is a parameter: what its values are for `std::isnan` and the like, and their
text.

## Main definitions

* `FloatingPoint` — a floating-point type
* `formatSignalSafeFloat` — the function
* `layoutOf`, `floatText` — where the padding goes, and the text

## Main results

* `length_floatText` — the length of the text
* `formatSignalSafeFloat_spec` — the text is written within the buffer
* `signalSafe_texts` — the texts of wide messages and of floating-point arguments
-/

namespace NgLog

namespace SignalSafe

open Utf8 Unicode

/-! ### The code -/

/-- `std::chars_format`. -/
inductive CharsFormat
  | hex
  | scientific
  | fixed
  | general
  deriving DecidableEq

/-- A floating-point type. -/
structure FloatingPoint (α : Type) where
  isnan : α → Bool
  isfinite : α → Bool
  signbit : α → Bool
  /-- The text of `std::to_chars`, with a format and a precision or without. -/
  toChars : α → Option CharsFormat → Option ℤ → List Byte

def kDefaultFloatPrecision : ℤ := 6

variable {α : Type} (F : FloatingPoint α) (spec : SignalSafeFloatSpec) (value : α)

/-- The text of `ToChars`. -/
def toCharsText : List Byte :=
  let hasPrecision := 0 ≤ spec.precision
  let precision := if hasPrecision then spec.precision else kDefaultFloatPrecision
  if spec.type ∈ bytes "aA" then
    if hasPrecision then F.toChars value (some .hex) (some precision)
    else F.toChars value (some .hex) none
  else if spec.type ∈ bytes "eE" then F.toChars value (some .scientific) (some precision)
  else if spec.type ∈ bytes "fF" then F.toChars value (some .fixed) (some precision)
  else if spec.type ∈ bytes "gG" then F.toChars value (some .general) (some precision)
  else if hasPrecision then F.toChars value (some .general) (some precision)
  else F.toChars value none none

/-- `ToUpperAscii`. -/
def toUpperAscii (c : Byte) : Byte := if 0x61 ≤ c ∧ c ≤ 0x7a then c - 0x61 + 0x41 else c

/-- `uppercase`. -/
def SignalSafeFloatSpec.uppercase : Bool :=
  spec.type = 0x41 || spec.type = 0x45 || spec.type = 0x46 || spec.type = 0x47

/-- The body and whether it is negative, or nothing if a byte is read that `std::to_chars` has not
written. -/
def splitSign (digits : List Byte) : Option (List Byte × Bool) :=
  if F.isnan value then some (bytes "nan", F.signbit value)
  else
    match digits with
    | [] => none
    | c :: body => some (if c = 0x2d then (body, true) else (digits, false))

/-- `sign`, or NUL. -/
def signOf (negative : Bool) : Byte :=
  if negative then 0x2d else if spec.sign = 0x2b ∨ spec.sign = 0x20 then spec.sign else 0

/-- `*out++ = sign`, if there is one. -/
def writeSign (sign : Byte) (out : Buffer) : Option Buffer :=
  if sign ≠ 0 then out.put sign else some out

/-- `write_body`. -/
def writeBody (body : List Byte) (out : Buffer) : Option Buffer :=
  out.append (body.map fun c => if spec.uppercase then toUpperAscii c else c)

/-- The writes of `FormatSignalSafeFloatImpl`. -/
def writeFloat (body : List Byte) (negative : Bool) (out : Buffer) : Option Buffer := do
  let sign := signOf spec negative
  let length := body.length + if sign = 0 then 0 else 1
  let padding := if length < spec.width then spec.width - length else 0
  if spec.zeroPadding ∧ spec.align = 0 ∧ F.isfinite value then
    let out ← writeSign sign out
    let out ← out.append (List.replicate padding 0x30)
    writeBody spec body out
  else
    let before :=
      if spec.align = 0x3c then 0 else if spec.align = 0x5e then padding / 2 else padding
    let out ← out.append (List.replicate before spec.fill)
    let out ← writeSign sign out
    let out ← writeBody spec body out
    out.append (List.replicate (padding - before) spec.fill)

/-- `FormatSignalSafeFloatImpl`: the buffer and the length of the text, or nothing if it would write
beyond the buffer. -/
def formatSignalSafeFloat (buffer : List Byte) : Option (List Byte × ℕ) :=
  let digits := toCharsText F spec value
  if kSignalSafeFloatBufferSize < digits.length then some (buffer, 0)
  else do
    let (body, negative) ← splitSign F value digits
    let out ← writeFloat F spec value body negative ⟨[], buffer⟩
    return (out.contents, out.written.length)

/-! ### The text -/

/-- Whether there is a minus sign. -/
def isNegative : Bool :=
  if F.isnan value then F.signbit value else (toCharsText F spec value).head? = some 0x2d

/-- The sign that the specification demands. -/
def signText : List Byte :=
  if isNegative F spec value then bytes "-"
  else if spec.sign = 0x2b then bytes "+"
  else if spec.sign = 0x20 then bytes " "
  else []

/-- The text without its sign, as `std::to_chars` writes it. -/
def digitsText : List Byte :=
  if F.isnan value then bytes "nan"
  else if (toCharsText F spec value).head? = some 0x2d then (toCharsText F spec value).tail
  else toCharsText F spec value

/-- The text without its sign. -/
def bodyText : List Byte :=
  (digitsText F spec value).map fun c => if spec.uppercase then toUpperAscii c else c

/-- The padding before the sign, between the sign and the body, and behind them. -/
structure Layout where
  before : ℕ
  between : ℕ
  after : ℕ
  deriving DecidableEq

/-- Where the padding goes: an alignment says it, and zeroes go behind the sign of a finite
number. -/
def layoutOf (finite : Bool) (padding : ℕ) : Layout :=
  if spec.align = 0x3c then ⟨0, 0, padding⟩
  else if spec.align = 0x5e then ⟨padding / 2, 0, padding - padding / 2⟩
  else if spec.align = 0x3e then ⟨padding, 0, 0⟩
  else if spec.zeroPadding ∧ finite then ⟨0, padding, 0⟩
  else ⟨padding, 0, 0⟩

/-- The text of a layout. -/
def Layout.text (layout : Layout) : List Byte :=
  List.replicate layout.before spec.fill ++ signText F spec value ++
    List.replicate layout.between 0x30 ++ bodyText F spec value ++
    List.replicate layout.after spec.fill

/-- The text that the specification demands. -/
def floatText : List Byte :=
  (layoutOf spec (F.isfinite value)
    (spec.width - ((signText F spec value).length + (bodyText F spec value).length))).text
    F spec value

variable {F spec value}

theorem layoutOf_total (spec : SignalSafeFloatSpec) (finite : Bool) (padding : ℕ) :
    (layoutOf spec finite padding).before + (layoutOf spec finite padding).between +
      (layoutOf spec finite padding).after = padding := by
  rw [layoutOf]
  split_ifs <;> simp only <;> omega

/-- **The length of the text** is the width, if that is enough. -/
theorem length_floatText :
    (floatText F spec value).length =
      max spec.width ((signText F spec value).length + (bodyText F spec value).length) := by
  have htotal := layoutOf_total spec (F.isfinite value)
    (spec.width - ((signText F spec value).length + (bodyText F spec value).length))
  rw [floatText, Layout.text]
  simp only [List.length_append, List.length_replicate]
  omega

/-! ### The writes -/

open Buffer

theorem splitSign_eq (hdigits : toCharsText F spec value ≠ []) :
    splitSign F value (toCharsText F spec value) =
      some (digitsText F spec value, isNegative F spec value) := by
  rw [splitSign.eq_def, digitsText, isNegative]
  by_cases hnan : F.isnan value = true
  · rw [if_pos hnan, if_pos hnan, if_pos hnan]
  · obtain ⟨c, body, heq⟩ := List.exists_cons_of_ne_nil hdigits
    rw [if_neg hnan, if_neg hnan, if_neg hnan, heq]
    by_cases hminus : c = 0x2d <;> simp [hminus]

theorem signText_eq (negative : Bool) (h : isNegative F spec value = negative) :
    signText F spec value = if signOf spec negative = 0 then [] else [signOf spec negative] := by
  rw [signText, h, signOf]
  cases negative with
  | true => rfl
  | false =>
    by_cases hplus : spec.sign = 0x2b
    · rw [hplus]
      rfl
    · by_cases hspace : spec.sign = 0x20
      · rw [hspace]
        rfl
      · simp [hplus, hspace]

/-- The sign is written, if there is one. -/
theorem writes_sign :
    Writes (writeSign (signOf spec (isNegative F spec value))) (signText F spec value) := by
  rw [signText_eq _ rfl]
  by_cases hnone : signOf spec (isNegative F spec value) = 0
  · rw [if_pos hnone, hnone]
    exact writes_nothing
  · rw [if_neg hnone]
    intro buffer h
    rw [writeSign, if_pos hnone]
    exact writes_put _ buffer h

theorem writes_body : Writes (writeBody spec (digitsText F spec value)) (bodyText F spec value) :=
  writes_append _

/-- The padding is what the width leaves. -/
theorem padding_eq :
    (if (digitsText F spec value).length +
      (if signOf spec (isNegative F spec value) = 0 then 0 else 1) <
        spec.width then
      spec.width - ((digitsText F spec value).length +
        if signOf spec (isNegative F spec value) = 0 then 0 else 1)
    else 0) = spec.width - ((signText F spec value).length + (bodyText F spec value).length) := by
  rw [signText_eq _ rfl, bodyText, List.length_map]
  split_ifs <;> simp only [List.length_nil, List.length_singleton] at * <;> omega

theorem layoutOf_zeroes {finite : Bool}
    (hzero : spec.zeroPadding = true ∧ spec.align = 0 ∧ finite = true) (padding : ℕ) :
    layoutOf spec finite padding = ⟨0, padding, 0⟩ := by
  obtain ⟨hpadding, halign, hfinite⟩ := hzero
  have hleft : (0 : Byte) ≠ 0x3c := by decide
  have hcenter : (0 : Byte) ≠ 0x5e := by decide
  have hright : (0 : Byte) ≠ 0x3e := by decide
  simp [layoutOf, halign, hpadding, hfinite, hleft, hcenter, hright]

/-- Where the padding goes for every other specification. -/
theorem layoutOf_fill {finite : Bool} (hspec : spec.Admissible)
    (hzero : ¬(spec.zeroPadding = true ∧ spec.align = 0 ∧ finite = true)) (padding : ℕ) :
    layoutOf spec finite padding =
      ⟨if spec.align = 0x3c then 0 else if spec.align = 0x5e then padding / 2 else padding, 0,
        padding -
          if spec.align = 0x3c then 0
          else if spec.align = 0x5e then padding / 2 else padding⟩ := by
  rw [layoutOf]
  by_cases hleft : spec.align = 0x3c
  · simp [hleft]
  · by_cases hcenter : spec.align = 0x5e
    · simp [hcenter]
    · simp only [if_neg hleft, if_neg hcenter, Nat.sub_self]
      by_cases hright : spec.align = 0x3e
      · rw [if_pos hright]
      · have hnone : spec.align = 0 := by
          have hmem : spec.align ∈ [0, 0x3c, 0x3e, 0x5e] := hspec.align_mem
          simpa [hleft, hcenter, hright] using hmem
        rw [if_neg hright, if_neg fun h => hzero ⟨h.1, hnone, h.2⟩]

/-- **The writes of a float** in the order of the layout. -/
theorem writes_float (hspec : spec.Admissible) :
    Writes (writeFloat F spec value (digitsText F spec value) (isNegative F spec value))
      (floatText F spec value) := by
  intro buffer h
  rw [writeFloat]
  simp only [padding_eq]
  generalize hpadding :
    spec.width - ((signText F spec value).length + (bodyText F spec value).length) = padding
  rw [floatText, hpadding] at h ⊢
  by_cases hzero : spec.zeroPadding = true ∧ spec.align = 0 ∧ F.isfinite value = true
  · have htext : (layoutOf spec (F.isfinite value) padding).text F spec value =
        signText F spec value ++ (List.replicate padding 0x30 ++ bodyText F spec value) := by
      rw [layoutOf_zeroes hzero, Layout.text]
      simp
    rw [htext] at h ⊢
    rw [if_pos hzero]
    exact writes_sign.bind ((writes_append _).bind writes_body) buffer h
  · have htext : (layoutOf spec (F.isfinite value) padding).text F spec value =
        List.replicate (layoutOf spec (F.isfinite value) padding).before spec.fill ++
          (signText F spec value ++ (bodyText F spec value ++
            List.replicate (layoutOf spec (F.isfinite value) padding).after spec.fill)) := by
      rw [layoutOf_fill hspec hzero, Layout.text]
      simp
    rw [htext, layoutOf_fill hspec hzero] at h ⊢
    rw [if_neg hzero]
    exact (writes_append _).bind (writes_sign.bind (writes_body.bind (writes_append _))) buffer h

theorem length_signText_le : (signText F spec value).length ≤ 1 := by
  rw [signText_eq _ rfl]
  split <;> simp

/-- The sign and the body fit into the buffer, if there is room for a sign. -/
theorem length_sign_body_le
    (hroom : (toCharsText F spec value).length < kSignalSafeFloatBufferSize) :
    (signText F spec value).length + (bodyText F spec value).length ≤
      kSignalSafeFloatBufferSize := by
  have hsign := @length_signText_le _ F spec value
  have hbody : (digitsText F spec value).length < kSignalSafeFloatBufferSize := by
    rw [digitsText]
    split
    · decide +kernel
    · split
      · rw [List.length_tail]
        omega
      · exact hroom
  rw [bodyText, List.length_map]
  omega

/-- **The text is written within the buffer.** -/
theorem formatSignalSafeFloat_spec (hspec : spec.Admissible)
    (hdigits : toCharsText F spec value ≠ [])
    (hroom : (toCharsText F spec value).length < kSignalSafeFloatBufferSize) {buffer : List Byte}
    (hbuffer : buffer.length = kSignalSafeFloatBufferSize) :
    ∃ rest, formatSignalSafeFloat F spec value buffer =
        some (floatText F spec value ++ rest, (floatText F spec value).length) ∧
      (floatText F spec value ++ rest).length = kSignalSafeFloatBufferSize ∧
      (floatText F spec value).length =
        max spec.width ((signText F spec value).length + (bodyText F spec value).length) ∧
      (floatText F spec value).length ≤ kSignalSafeFloatBufferSize := by
  have hlength := @length_floatText _ F spec value
  have hle : (floatText F spec value).length ≤ kSignalSafeFloatBufferSize := by
    rw [hlength]
    exact Nat.max_le.mpr ⟨hspec.width_le, length_sign_body_le hroom⟩
  have hwrites :
    Writes (writeFloat F spec value (digitsText F spec value) (isNegative F spec value))
      (floatText F spec value) := writes_float hspec
  have hrun := hwrites ⟨[], buffer⟩ (by rwa [hbuffer])
  refine ⟨buffer.drop (floatText F spec value).length, ?_, ?_, hlength, hle⟩
  · simp only [formatSignalSafeFloat, if_neg (Nat.lt_asymm hroom), splitSign_eq hdigits,
      Option.bind_eq_bind, Option.bind_some, hrun]
    rfl
  · rw [List.length_append, List.length_drop]
    omega

/-- **The texts of signal handlers stay within their buffers.** A wide message is cut to whole
characters behind its prefix, and its result is capped by the greatest `int`. A floating-point
argument has the length and the layout that its specification demands. -/
theorem signalSafe_texts :
    (∀ (e : WideEncoding) (messagePrefix : List Byte) (wide : List e.Unit) (buffer : List Byte),
      1 ≤ buffer.length →
      ∃ text done rest,
        format messagePrefix wide buffer = some (text ++ 0 :: rest,
          min (if text = messageText messagePrefix wide then text.length else buffer.length)
            kMaxLength) ∧
        (text ++ 0 :: rest).length = buffer.length ∧
        text = messagePrefix.take (buffer.length - 1) ++ encode done ∧ done <+: characters wide ∧
        (text = messageText messagePrefix wide ↔
          wide.length ≤ kSignalSafeWideLength ∧
            (messageText messagePrefix wide).length < buffer.length)) ∧
    ∀ (T : FloatType) (it rest : List UInt32) (spec : SignalSafeFloatSpec),
      parseSignalSafeFloatSpec T it = .ok (spec, rest) →
      ∀ (α : Type) (F : FloatingPoint α) (value : α) (buffer : List Byte),
        toCharsText F spec value ≠ [] →
        (toCharsText F spec value).length < kSignalSafeFloatBufferSize →
        buffer.length = kSignalSafeFloatBufferSize →
        ∃ rest, formatSignalSafeFloat F spec value buffer =
            some (floatText F spec value ++ rest, (floatText F spec value).length) ∧
          (floatText F spec value ++ rest).length = kSignalSafeFloatBufferSize ∧
          (floatText F spec value).length =
            max spec.width ((signText F spec value).length + (bodyText F spec value).length) ∧
          (floatText F spec value).length ≤ kSignalSafeFloatBufferSize := by
  constructor
  · intro e messagePrefix wide buffer hsize
    exact format_spec messagePrefix wide hsize
  · intro T it rest spec hparse α F value buffer hdigits hroom hbuffer
    exact formatSignalSafeFloat_spec (parseSignalSafeFloatSpec_admissible hparse).1 hdigits
      hroom hbuffer

/-- A type with one value, which is printed as 1.5. -/
def oneAndAHalf : FloatingPoint Unit :=
  ⟨fun _ => false, fun _ => true, fun _ => false, fun _ _ _ => bytes "1.5"⟩

/-- The specification `+08`. -/
def paddedSpec : SignalSafeFloatSpec := { sign := 0x2b, zeroPadding := true, width := 8 }

example : floatText oneAndAHalf paddedSpec () = bytes "+00001.5" := by decide +kernel

theorem signalSafe_texts_small :
    (∃ text done rest,
      @format .utf16 (bytes "I") [0x48, 0xd83d] (List.replicate 4 0) = some (text ++ 0 :: rest,
        min (if text = @messageText .utf16 (bytes "I") [0x48, 0xd83d] then text.length
          else (List.replicate 4 (0 : Byte)).length) kMaxLength) ∧
      (text ++ 0 :: rest).length = (List.replicate 4 (0 : Byte)).length ∧
      text = (bytes "I").take ((List.replicate 4 (0 : Byte)).length - 1) ++ encode done ∧
      done <+: @characters .utf16 [0x48, 0xd83d] ∧
      (text = @messageText .utf16 (bytes "I") [0x48, 0xd83d] ↔
        ([0x48, 0xd83d] : List UInt16).length ≤ kSignalSafeWideLength ∧
          (@messageText .utf16 (bytes "I") [0x48, 0xd83d]).length <
            (List.replicate 4 (0 : Byte)).length)) ∧
    ∃ rest, formatSignalSafeFloat oneAndAHalf paddedSpec () (List.replicate 512 0) =
        some (floatText oneAndAHalf paddedSpec () ++ rest,
          (floatText oneAndAHalf paddedSpec ()).length) ∧
      (floatText oneAndAHalf paddedSpec () ++ rest).length = kSignalSafeFloatBufferSize ∧
      (floatText oneAndAHalf paddedSpec ()).length = max 8
        ((signText oneAndAHalf paddedSpec ()).length +
          (bodyText oneAndAHalf paddedSpec ()).length) ∧
      (floatText oneAndAHalf paddedSpec ()).length ≤ kSignalSafeFloatBufferSize := by
  have hparse : parseSignalSafeFloatSpec .double [0x2b, 0x30, 0x38, 0x7d] = .ok
      (paddedSpec, [0x7d]) := by
    rfl
  exact ⟨signalSafe_texts.1 .utf16 _ _ _ (by decide),
    signalSafe_texts.2 .double _ _ _ hparse Unit oneAndAHalf () _ (by decide +kernel)
      (by decide +kernel)
      List.length_replicate⟩

end SignalSafe

end NgLog
