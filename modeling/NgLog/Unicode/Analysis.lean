import NgLog.Support.Utf8Syntax
import NgLog.Unicode.WideSpan

/-!
# Checking narrow text for well-formedness

`AnalyzeUtf8` goes through a text from sequence to sequence and stops at the first one that is not
well formed. On the way it notes whether a byte is no ASCII byte and whether one is NUL. It looks at
the first byte of each sequence only, which is enough in well-formed text: the other bytes are
continuation bytes, and a sequence that has any starts with a byte that is no ASCII byte either.

## Main definitions

* `analyzeUtf8` — the function

## Main results

* `analyzeLoop_append` — the loop passes a well-formed sequence
* `isValid_iff_exists_encode` — the text is accepted iff it encodes characters
* `analyzeUtf8_spec` — the text is accepted iff it is well formed, and the flags are right then
-/

namespace NgLog

namespace Utf8

open Unicode

/-! ### The code -/

def kAsciiMax : Byte := 0x7f
def kContinuationMin : Byte := 0x80
def kContinuationMax : Byte := 0xbf
def kTwoByteMin : Byte := 0xc2
def kTwoByteMax : Byte := 0xdf
def kThreeByteMin : Byte := 0xe0
def kThreeByteMax : Byte := 0xef
def kFourByteMin : Byte := 0xf0
def kFourByteMax : Byte := 0xf4
def kThreeByteMinSecond : Byte := 0xa0
def kSurrogateFirstByte : Byte := 0xed
def kSurrogateMaxSecond : Byte := 0x9f
def kFourByteMinSecond : Byte := 0x90
def kFourByteMaxSecond : Byte := 0x8f

/-- `Utf8Analysis`. -/
structure Utf8Analysis where
  isValid : Bool
  isAscii : Bool
  hasNull : Bool
  deriving DecidableEq

/-- `valid_second` after the first byte of a sequence of three. -/
def validSecondOfThree (first second : Byte) : Bool :=
  first = kThreeByteMin && kThreeByteMinSecond ≤ second && second ≤ kContinuationMax ||
    first = kSurrogateFirstByte && kContinuationMin ≤ second && second ≤ kSurrogateMaxSecond ||
    first ≠ kThreeByteMin && first ≠ kSurrogateFirstByte && isContinuation second

/-- `valid_second` after the first byte of a sequence of four. -/
def validSecondOfFour (first second : Byte) : Bool :=
  first = kFourByteMin && kFourByteMinSecond ≤ second && second ≤ kContinuationMax ||
    first = kFourByteMax && kContinuationMin ≤ second && second ≤ kFourByteMaxSecond ||
    first ≠ kFourByteMin && first ≠ kFourByteMax && isContinuation second

/-- The loop of `AnalyzeUtf8`, from an index on. -/
def analyzeLoop (isAscii hasNull : Bool) : List Byte → Utf8Analysis
  | [] => ⟨true, isAscii, hasNull⟩
  | first :: rest =>
    let hasNull := if first = 0 then true else hasNull
    if first ≤ kAsciiMax then analyzeLoop isAscii hasNull rest
    else if kTwoByteMin ≤ first ∧ first ≤ kTwoByteMax then
      match rest with
      | second :: rest =>
        if !isContinuation second then ⟨false, false, hasNull⟩
        else analyzeLoop false hasNull rest
      | _ => ⟨false, false, hasNull⟩
    else if kThreeByteMin ≤ first ∧ first ≤ kThreeByteMax then
      match rest with
      | second :: third :: rest =>
        if !validSecondOfThree first second || !isContinuation third then
          ⟨false, false, hasNull⟩
        else analyzeLoop false hasNull rest
      | _ => ⟨false, false, hasNull⟩
    else if kFourByteMin ≤ first ∧ first ≤ kFourByteMax then
      match rest with
      | second :: third :: fourth :: rest =>
        if !validSecondOfFour first second || !isContinuation third || !isContinuation fourth then
          ⟨false, false, hasNull⟩
        else analyzeLoop false hasNull rest
      | _ => ⟨false, false, hasNull⟩
    else ⟨false, false, hasNull⟩

/-- `AnalyzeUtf8`. -/
def analyzeUtf8 (input : List Byte) : Utf8Analysis := analyzeLoop true false input

/-! ### One sequence -/

theorem isContinuation_iff {byte : Byte} :
    isContinuation byte = true ↔ continuation.Contains byte := by
  rw [isContinuation, Bool.and_eq_true, decide_eq_true_iff, decide_eq_true_iff]
  rfl

/-- The second byte of three, with the ranges of its first byte. -/
theorem validSecondOfThree_iff {first second : Byte} :
    validSecondOfThree first second = true ↔ continuation.Contains second ∧
      (first.toNat = 0xe0 → 0xa0 ≤ second.toNat) ∧ (first.toNat = 0xed → second.toNat ≤ 0x9f) := by
  simp only [validSecondOfThree, isContinuation, kThreeByteMin, kThreeByteMinSecond,
    kContinuationMax, kSurrogateFirstByte, kContinuationMin, kSurrogateMaxSecond, contains_iff,
    continuation, Bool.or_eq_true, Bool.and_eq_true, decide_eq_true_iff, UInt8.le_iff_toNat_le,
    ← UInt8.toNat_inj, UInt8.reduceToNat, ne_eq]
  omega

/-- The second byte of four, with the ranges of its first byte. -/
theorem validSecondOfFour_iff {first second : Byte} :
    validSecondOfFour first second = true ↔ continuation.Contains second ∧
      (first.toNat = 0xf0 → 0x90 ≤ second.toNat) ∧ (first.toNat = 0xf4 → second.toNat ≤ 0x8f) := by
  simp only [validSecondOfFour, isContinuation, kFourByteMin, kFourByteMinSecond,
    kContinuationMax, kFourByteMax, kContinuationMin, kFourByteMaxSecond, contains_iff,
    continuation, Bool.or_eq_true, Bool.and_eq_true, decide_eq_true_iff, UInt8.le_iff_toNat_le,
    ← UInt8.toNat_inj, UInt8.reduceToNat, ne_eq]
  omega

/-- The ranges of the first byte, as the code tests them. -/
theorem firstByte_iff {first : Byte} :
    (first ≤ kAsciiMax ↔ first.toNat ≤ 0x7f) ∧
      (kTwoByteMin ≤ first ∧ first ≤ kTwoByteMax ↔ 0xc2 ≤ first.toNat ∧ first.toNat ≤ 0xdf) ∧
      (kThreeByteMin ≤ first ∧ first ≤ kThreeByteMax ↔
        0xe0 ≤ first.toNat ∧ first.toNat ≤ 0xef) ∧
      (kFourByteMin ≤ first ∧ first ≤ kFourByteMax ↔
        0xf0 ≤ first.toNat ∧ first.toNat ≤ 0xf4) := by
  simp only [UInt8.le_iff_toNat_le]
  exact ⟨Iff.rfl, Iff.rfl, Iff.rfl, Iff.rfl⟩

/-- What the flags are after some bytes. -/
def asciiAfter (isAscii : Bool) (bytes : List Byte) : Bool :=
  isAscii && bytes.all fun byte => byte < 0x80

def nullAfter (hasNull : Bool) (bytes : List Byte) : Bool := hasNull || bytes.contains 0

theorem lt_iff_toNat_le {byte : Byte} : byte < 0x80 ↔ byte.toNat ≤ 0x7f := by
  rw [UInt8.lt_iff_toNat_lt, ← Nat.lt_succ_iff]
  rfl

theorem asciiAfter_singleton {a : Byte} (h : a.toNat ≤ 0x7f) (isAscii : Bool) :
    asciiAfter isAscii [a] = isAscii := by
  simp [asciiAfter, lt_iff_toNat_le.mpr h]

theorem asciiAfter_cons {a : Byte} (h : ¬a.toNat ≤ 0x7f) (isAscii : Bool) (bytes : List Byte) :
    asciiAfter isAscii (a :: bytes) = false := by
  simp [asciiAfter, mt lt_iff_toNat_le.mp h]

/-- Only the first byte of a sequence may be NUL. -/
theorem nullAfter_sequence {a : Byte} {s : List Byte} (hs : IsSequence (a :: s)) (hasNull : Bool) :
    nullAfter hasNull (a :: s) = if a = 0 then true else hasNull := by
  have hzero : 0 ∉ s := fun hmem => absurd (hs.continuation_tail.2 0 hmem) (by decide)
  by_cases ha : a = 0 <;> simp [nullAfter, hzero, ha, eq_comm]

/-- The loop passes a well-formed sequence. -/
theorem analyzeLoop_append {s : List Byte} (hs : IsSequence s) (isAscii hasNull : Bool)
    (rest : List Byte) :
    analyzeLoop isAscii hasNull (s ++ rest) =
      analyzeLoop (asciiAfter isAscii s) (nullAfter hasNull s) rest := by
  rcases hs.cases with ⟨a, rfl⟩ | ⟨a, b, rfl⟩ | ⟨a, b, c, rfl⟩ | ⟨a, b, c, d, rfl⟩
  · rw [nullAfter_sequence hs]
    have ha := isSequence_one_iff.mp hs
    rw [asciiAfter_singleton ha, List.singleton_append]
    conv_lhs => unfold analyzeLoop
    exact if_pos (firstByte_iff.1.mpr ha)
  · rw [nullAfter_sequence hs]
    obtain ⟨ha, hb⟩ := isSequence_two_iff.mp hs
    have hascii : ¬a.toNat ≤ 0x7f := by omega
    simp only [List.cons_append, List.nil_append]
    rw [asciiAfter_cons hascii, analyzeLoop, if_neg (mt firstByte_iff.1.mp hascii),
      if_pos (firstByte_iff.2.1.mpr ha), isContinuation_iff.mpr hb]
    rfl
  · rw [nullAfter_sequence hs]
    obtain ⟨ha, hb, hc, hsecond⟩ := isSequence_three_iff.mp hs
    have hascii : ¬a.toNat ≤ 0x7f := by omega
    simp only [List.cons_append, List.nil_append]
    rw [asciiAfter_cons hascii, analyzeLoop, if_neg (mt firstByte_iff.1.mp hascii),
      if_neg (mt firstByte_iff.2.1.mp (by omega)), if_pos (firstByte_iff.2.2.1.mpr ha)]
    dsimp only
    rw [validSecondOfThree_iff.mpr ⟨hb, hsecond⟩, isContinuation_iff.mpr hc]
    rfl
  · rw [nullAfter_sequence hs]
    obtain ⟨ha, hb, hc, hd, hsecond⟩ := isSequence_four_iff.mp hs
    have hascii : ¬a.toNat ≤ 0x7f := by omega
    simp only [List.cons_append, List.nil_append]
    rw [asciiAfter_cons hascii, analyzeLoop, if_neg (mt firstByte_iff.1.mp hascii),
      if_neg (mt firstByte_iff.2.1.mp (by omega)), if_neg (mt firstByte_iff.2.2.1.mp (by omega)),
      if_pos (firstByte_iff.2.2.2.mpr ha)]
    dsimp only
    rw [validSecondOfFour_iff.mpr ⟨hb, hsecond⟩, isContinuation_iff.mpr hc,
      isContinuation_iff.mpr hd]
    rfl

/-- A text that is accepted starts with a well-formed sequence. -/
theorem exists_sequence {isAscii hasNull : Bool} {first : Byte} {rest : List Byte}
    (h : (analyzeLoop isAscii hasNull (first :: rest)).isValid = true) :
    ∃ s rest', IsSequence (first :: s) ∧ rest = s ++ rest' := by
  unfold analyzeLoop at h
  dsimp only at h
  generalize (if first = 0 then true else hasNull) = hasNull' at h
  split_ifs at h with hone htwo hthree hfour
  · exact ⟨[], rest, isSequence_one_iff.mpr (firstByte_iff.1.mp hone), rfl⟩
  · rcases rest with _ | ⟨b, rest⟩
    · exact absurd h Bool.false_ne_true
    · by_cases hb : isContinuation b
      · exact ⟨[b], rest, isSequence_two_iff.mpr ⟨firstByte_iff.2.1.mp htwo,
          isContinuation_iff.mp hb⟩, rfl⟩
      · simp [hb] at h
  · rcases rest with _ | ⟨b, _ | ⟨c, rest⟩⟩
    · exact absurd h Bool.false_ne_true
    · exact absurd h Bool.false_ne_true
    · by_cases hvalid : validSecondOfThree first b = true ∧ isContinuation c = true
      · obtain ⟨hb, hsecond⟩ := validSecondOfThree_iff.mp hvalid.1
        exact ⟨[b, c], rest, isSequence_three_iff.mpr ⟨firstByte_iff.2.2.1.mp hthree, hb,
          isContinuation_iff.mp hvalid.2, hsecond⟩, rfl⟩
      · rw [← Bool.and_eq_true, Bool.not_eq_true, Bool.and_eq_false_iff] at hvalid
        rcases hvalid with hb | hc
        · simp [hb] at h
        · simp [hc] at h
  · rcases rest with _ | ⟨b, _ | ⟨c, _ | ⟨d, rest⟩⟩⟩
    · exact absurd h Bool.false_ne_true
    · exact absurd h Bool.false_ne_true
    · exact absurd h Bool.false_ne_true
    · by_cases hb : validSecondOfFour first b = true
      · by_cases hc : isContinuation c = true
        · by_cases hd : isContinuation d = true
          · obtain ⟨hb, hsecond⟩ := validSecondOfFour_iff.mp hb
            exact ⟨[b, c, d], rest, isSequence_four_iff.mpr ⟨firstByte_iff.2.2.2.mp hfour, hb,
              isContinuation_iff.mp hc, isContinuation_iff.mp hd, hsecond⟩, rfl⟩
          · simp [hd] at h
        · simp [hc] at h
      · simp [hb] at h

/-! ### The whole text -/

theorem asciiAfter_append (isAscii : Bool) (bytes bytes' : List Byte) :
    asciiAfter isAscii (bytes ++ bytes') = asciiAfter (asciiAfter isAscii bytes) bytes' := by
  rw [asciiAfter, asciiAfter, asciiAfter, List.all_append, Bool.and_assoc]

theorem nullAfter_append (hasNull : Bool) (bytes bytes' : List Byte) :
    nullAfter hasNull (bytes ++ bytes') = nullAfter (nullAfter hasNull bytes) bytes' := by
  rw [nullAfter, nullAfter, nullAfter, List.contains_append, Bool.or_assoc]

/-- The loop accepts a well-formed text, by induction on its sequences. -/
theorem analyzeLoop_wellFormed {input : List Byte} (h : WellFormed input)
    (isAscii hasNull : Bool) :
    analyzeLoop isAscii hasNull input =
      ⟨true, asciiAfter isAscii input, nullAfter hasNull input⟩ := by
  obtain ⟨sequences, hsequences, rfl⟩ := h
  induction sequences generalizing isAscii hasNull with
  | nil => simp [analyzeLoop, asciiAfter, nullAfter]
  | cons s sequences ih =>
    rw [List.flatten_cons, analyzeLoop_append (hsequences s (List.mem_cons_self ..)),
      ih _ _ (fun s' hs' => hsequences s' (List.mem_cons_of_mem _ hs')), asciiAfter_append,
      nullAfter_append]

/-- A text that is accepted is well formed, by induction on what follows the first sequence. -/
theorem wellFormed_of_isValid {input : List Byte} {isAscii hasNull : Bool}
    (h : (analyzeLoop isAscii hasNull input).isValid = true) : WellFormed input := by
  induction hn : input.length using Nat.strongRecOn generalizing input isAscii hasNull with
  | _ n ih =>
    rcases input with _ | ⟨first, rest⟩
    · exact wellFormed_nil
    · obtain ⟨s, rest', hs, rfl⟩ := exists_sequence h
      rw [← List.cons_append, analyzeLoop_append hs] at h
      rw [List.length_cons, List.length_append] at hn
      exact hs.append (ih rest'.length (by omega) h rfl)

theorem isValid_iff {input : List Byte} :
    (analyzeUtf8 input).isValid = true ↔ WellFormed input := by
  refine ⟨wellFormed_of_isValid, fun h => ?_⟩
  rw [analyzeUtf8, analyzeLoop_wellFormed h]

/-- What is accepted is what encodes some characters. -/
theorem isValid_iff_exists_encode {input : List Byte} :
    (analyzeUtf8 input).isValid = true ↔ ∃ text, encode text = input :=
  isValid_iff.trans wellFormed_iff

/-- The text is accepted if and only if it is a concatenation of well-formed sequences, and the
flags of an accepted text say whether all of its bytes are ASCII and whether one is NUL. -/
theorem analyzeUtf8_spec (input : List Byte) :
    ((analyzeUtf8 input).isValid = true ↔ WellFormed input) ∧
      ((analyzeUtf8 input).isValid = true →
        ((analyzeUtf8 input).isAscii = true ↔ ∀ byte ∈ input, byte < 0x80) ∧
        ((analyzeUtf8 input).hasNull = true ↔ 0 ∈ input)) := by
  refine ⟨isValid_iff, fun h => ?_⟩
  rw [analyzeUtf8, analyzeLoop_wellFormed (isValid_iff.mp h)]
  simp [asciiAfter, nullAfter]

end Utf8

end NgLog
