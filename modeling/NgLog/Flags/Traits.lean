import Mathlib.Algebra.Group.Nat.Defs
import Mathlib.Data.List.TakeWhile
import NgLog.Flags.Scopes
import NgLog.Support.Numerals

/-!
# The text of a flag value

`FlagTraits` turns the value of a flag into text and text into a value, for each built-in type. An
integer is read by the C library and then held to the range of its type. A file mode is written by a
stream, which groups the digits as the global locale says, and is read digit by digit up to a
maximum. The setter of a flag knows no such maximum.

## Main definitions

* `strtoimax`, `strtoumax` — the conversions of the C library
* `parseBoolean`, `parseSigned`, `parseUnsigned`, `parseFileMode` — the parsers
* `NumericPunctuation`, `fileModeText` — how the stream writes a file mode
* `FlagType`, `FlagType.parse`, `FlagType.text` — the built-in types

## Main results

* `parse_text_iff` — the values whose text is read back
-/

namespace NgLog

namespace FlagValues

open Numeral

/-! ### Integers -/

/-- `std::isspace` in the "C" locale. -/
def isspace (c : Byte) : Bool := c = 0x20 ∨ (0x09 ≤ c ∧ c ≤ 0x0D)

/-- `IntegerBase`. -/
def integerBase (value : List Byte) : ℕ :=
  match value with
  | [] => 0
  | c :: rest =>
    if isspace c then 0
    else
      match if c = 0x2B ∨ c = 0x2D then rest else value with
      | zero :: x :: _ => if zero = 0x30 ∧ (x = 0x78 ∨ x = 0x58) then 16 else 10
      | _ => 10

/-- The text of `c_str()`, which ends at the first NUL. -/
def cText (value : List Byte) : List Byte := value.takeWhile (· ≠ 0)

/-- Whether a prefix of a hexadecimal number is followed by a digit. -/
def hasHexadecimalPrefix : List Byte → Bool
  | zero :: x :: c :: _ => zero = 0x30 ∧ (x = 0x78 ∨ x = 0x58) ∧ isDigit 16 c
  | _ => false

/-- What the conversions of the C library read: a sign, digits, and what follows them. -/
def scanInteger (base : ℕ) (text : List Byte) : Bool × List Byte × List Byte :=
  let text := text.dropWhile isspace
  let negative := text.head? = some 0x2D
  let text := if text.head? = some 0x2D ∨ text.head? = some 0x2B then text.drop 1 else text
  let text := if base = 16 ∧ hasHexadecimalPrefix text then text.drop 2 else text
  (negative, text.takeWhile (isDigit base), text.dropWhile (isDigit base))

/-- The result of a conversion, what is left of the text, and whether `errno` is set. -/
structure Conversion (V : Type) where
  parsed : V
  rest : List Byte
  outOfRange : Bool

/-- `std::strtoimax`, for a type of 64 bits. -/
def strtoimax (base : ℕ) (text : List Byte) : Conversion ℤ :=
  let (negative, digits, rest) := scanInteger base text
  if digits = [] then ⟨0, text, false⟩
  else
    let parsed : ℤ := if negative then -(value base digits) else value base digits
    if parsed < -2 ^ 63 then ⟨-2 ^ 63, rest, true⟩
    else if parsed ≥ 2 ^ 63 then ⟨2 ^ 63 - 1, rest, true⟩
    else ⟨parsed, rest, false⟩

/-- `std::strtoumax`, for a type of 64 bits. -/
def strtoumax (base : ℕ) (text : List Byte) : Conversion ℕ :=
  let (negative, digits, rest) := scanInteger base text
  if digits = [] then ⟨0, text, false⟩
  else if value base digits ≥ 2 ^ 64 then ⟨2 ^ 64 - 1, rest, true⟩
  else ⟨if negative then (2 ^ 64 - value base digits) % 2 ^ 64 else value base digits, rest, false⟩

/-- `ParseSigned`. -/
def parseSigned (value : List Byte) : Option Int32 :=
  let base := integerBase value
  if base = 0 then none
  else
    let conversion := strtoimax base (cText value)
    if conversion.outOfRange ∨ conversion.rest = cText value ∨ conversion.rest ≠ [] ∨
        conversion.parsed < Int32.minValue.toInt ∨
        conversion.parsed > Int32.maxValue.toInt then none
    else some (Int32.ofInt conversion.parsed)

/-- `ParseUnsigned`. -/
def parseUnsigned (value : List Byte) : Option UInt32 :=
  let base := integerBase value
  if base = 0 ∨ value.head? = some 0x2D then none
  else
    let conversion := strtoumax base (cText value)
    if conversion.outOfRange ∨ conversion.rest = cText value ∨ conversion.rest ≠ [] ∨
        conversion.parsed > 2 ^ 32 - 1 then none
    else some (UInt32.ofNat conversion.parsed)

/-- `std::to_string`. -/
def signedText (n : ℤ) : List Byte :=
  if n < 0 then 0x2D :: numeral 10 n.natAbs else numeral 10 n.natAbs

/-! ### Booleans -/

/-- `std::tolower` in the "C" locale. -/
def tolower (c : Byte) : Byte := if 0x41 ≤ c ∧ c ≤ 0x5A then c + 0x20 else c

/-- `ParseBoolean`. -/
def parseBoolean (value : List Byte) : Option Bool :=
  let normalized := value.map tolower
  if normalized ∈ ["1", "true", "yes", "y", "t"].map bytes then some true
  else if normalized ∈ ["0", "false", "no", "n", "f"].map bytes then some false
  else none

/-- `FlagTraits<bool>::ToString`. -/
def booleanText (value : Bool) : List Byte := if value then bytes "true" else bytes "false"

/-! ### File modes -/

/-- `FileMode`. -/
structure FileMode where
  value : UInt32
  deriving DecidableEq, Inhabited

/-- `kMaximumFileMode`. -/
def kMaximumFileMode : ℕ := 0o7777

/-- The loop of `FlagTraits<FileMode>::Parse`. -/
def parseModeFrom : ℕ → List Byte → Option ℕ
  | mode, [] => some mode
  | mode, digit :: value =>
    if digit < 0x30 ∨ digit > 0x37 then none
    else
      let mode := mode * 8 + (digit.toNat - 0x30)
      if mode > kMaximumFileMode then none else parseModeFrom mode value

/-- `FlagTraits<FileMode>::Parse`. -/
def parseFileMode (value : List Byte) : Option FileMode :=
  if value = [] then none
  else (parseModeFrom 0 value).map fun mode => ⟨UInt32.ofNat mode⟩

/-- `std::numpunct<char>` of the global locale: the sizes of the groups of digits from the right, of
which the last one repeats, and what stands between the groups. A size of zero is one that does not
end the group. -/
structure NumericPunctuation where
  grouping : List ℕ
  thousandsSep : Byte

/-- The classic locale. -/
def NumericPunctuation.classic : NumericPunctuation := ⟨[], 0x2C⟩

/-- The sizes of the groups behind the first one. -/
def nextSizes (size : ℕ) (sizes : List ℕ) : List ℕ := if sizes.isEmpty then [size] else sizes

/-- The digits in groups. Both are listed from the right. -/
def groupDigits (separator : Byte) : List ℕ → List Byte → List Byte
  | [], digits => digits
  | size :: sizes, digits =>
    if size = 0 ∨ digits.length ≤ size then digits
    else
      digits.take size ++ separator ::
        groupDigits separator (nextSizes size sizes) (digits.drop size)
  termination_by _ digits => digits.length
  decreasing_by
    rename_i hgroup
    rw [List.length_drop]
    omega

/-- What a stream writes for `std::oct`. -/
def octalText (locale : NumericPunctuation) (n : ℕ) : List Byte :=
  (groupDigits locale.thousandsSep locale.grouping (numeral 8 n).reverse).reverse

/-- `FlagTraits<FileMode>::ToString`. -/
def fileModeText (locale : NumericPunctuation) (mode : FileMode) : List Byte :=
  let digits := octalText locale mode.value.toNat
  0x30 :: (List.replicate (3 - digits.length) 0x30 ++ digits)

/-! ### The built-in types -/

/-- The types of flags that the library defines. -/
inductive FlagType
  | bool
  | int32
  | uint32
  | string
  | fileMode
  deriving DecidableEq

namespace FlagType

/-- The type of the values. -/
abbrev Value : FlagType → Type
  | bool => Bool
  | int32 => Int32
  | uint32 => UInt32
  | string => List Byte
  | fileMode => FileMode

/-- `FlagTraits::Parse`. -/
def parse : (type : FlagType) → Parse type.Value
  | bool => fun value _ => parseBoolean value
  | int32 => fun value _ => parseSigned value
  | uint32 => fun value _ => parseUnsigned value
  | string => parseString
  | fileMode => fun value _ => parseFileMode value

/-- `FlagTraits::ToString`. -/
def text (locale : NumericPunctuation) : (type : FlagType) → type.Value → List Byte
  | bool => booleanText
  | int32 => fun value => signedText value.toInt
  | uint32 => fun value => numeral 10 value.toNat
  | string => fun value => value
  | fileMode => fileModeText locale

end FlagType

/-! ### Integers are read back -/

section Integers

variable {text : List Byte}

/-- A decimal digit is neither a space nor a sign nor the mark of a hexadecimal number. -/
theorem not_special_of_isDigit {c : Byte} (h : isDigit 10 c = true) :
    isspace c = false ∧ c ≠ 0x2B ∧ c ≠ 0x2D ∧ c ≠ 0x78 ∧ c ≠ 0x58 ∧ c ≠ 0 := by
  obtain ⟨hle, hlt⟩ := (isDigit_iff (Nat.le_refl 10) c).mp h
  have hne (d : Byte) (hd : d.toNat < 0x30 ∨ 0x3A ≤ d.toNat) : c ≠ d := by
    rintro rfl
    omega
  refine ⟨decide_eq_false ?_, hne _ (by decide), hne _ (by decide), hne _ (by decide),
    hne _ (by decide), hne _ (by decide)⟩
  rintro (rfl | ⟨-, hspace⟩)
  · exact absurd hle (by decide)
  · have hspace := UInt8.le_iff_toNat_le.mp hspace
    exact absurd (hle.trans hspace) (by decide)

theorem cText_eq_self (h : ∀ c ∈ text, c ≠ 0) : cText text = text :=
  List.takeWhile_eq_self_iff.mpr fun c hc => decide_eq_true (h c hc)

/-- Decimal digits, also behind a minus sign, are read in base ten. -/
theorem integerBase_of_isDigit (h : ∀ c ∈ text, isDigit 10 c = true) (hne : text ≠ []) :
    integerBase text = 10 ∧ integerBase (0x2D :: text) = 10 := by
  obtain ⟨c, text, rfl⟩ := List.exists_cons_of_ne_nil hne
  obtain ⟨hspace, hplus, hminus, -⟩ := not_special_of_isDigit (h c List.mem_cons_self)
  have hsign : ¬(c = 0x2B ∨ c = 0x2D) := not_or.mpr ⟨hplus, hminus⟩
  have hminusSpace : isspace 0x2D = false := rfl
  rw [integerBase, integerBase, hspace, hminusSpace, if_neg Bool.false_ne_true,
    if_neg Bool.false_ne_true, if_neg hsign, if_pos (.inr rfl)]
  cases text with
  | nil => exact ⟨rfl, rfl⟩
  | cons d text =>
    obtain ⟨-, -, -, hx, hX, -⟩ :=
      not_special_of_isDigit (h d (List.mem_cons_of_mem _ List.mem_cons_self))
    have hhexadecimal : ¬(c = 0x30 ∧ (d = 0x78 ∨ d = 0x58)) := fun hmark => hmark.2.elim hx hX
    dsimp only
    rw [if_neg hhexadecimal]
    exact ⟨rfl, rfl⟩

/-- Digits are read up to the end of the text, with the sign before them. -/
theorem scanInteger_of_isDigit (h : ∀ c ∈ text, isDigit 10 c = true) (hne : text ≠ []) :
    scanInteger 10 text = (false, text, []) ∧ scanInteger 10 (0x2D :: text) = (true, text, []) := by
  have htake : text.takeWhile (isDigit 10) = text := List.takeWhile_eq_self_iff.mpr h
  have hdrop : text.dropWhile (isDigit 10) = [] := List.dropWhile_eq_nil_iff.mpr h
  have hbase : ¬((10 : ℕ) = 16 ∧ hasHexadecimalPrefix text = true) := fun hten =>
    absurd hten.1 (by decide)
  obtain ⟨c, rest, htext⟩ := List.exists_cons_of_ne_nil hne
  have hc : c ∈ text := htext ▸ List.mem_cons_self
  obtain ⟨hspace, hplus, hminus, -⟩ := not_special_of_isDigit (h c hc)
  have hskip : text.dropWhile isspace = text := by
    rw [htext, List.dropWhile_cons_of_neg (by rw [hspace]; exact Bool.false_ne_true)]
  have hsign : ¬(text.head? = some 0x2D ∨ text.head? = some 0x2B) := by
    rw [htext, List.head?_cons, Option.some.injEq, Option.some.injEq]
    exact not_or.mpr ⟨hminus, hplus⟩
  have hskipMinus : (0x2D :: text).dropWhile isspace = 0x2D :: text :=
    List.dropWhile_cons_of_neg (by decide)
  constructor
  · rw [scanInteger, hskip, if_neg hsign, if_neg hbase, htake, hdrop,
      decide_eq_false (not_or.mp hsign).1]
  · have hminusSign : (0x2D :: text).head? = some 0x2D ∨ (0x2D :: text).head? = some 0x2B :=
      .inl rfl
    rw [scanInteger, hskipMinus, if_pos hminusSign, List.drop_one, List.tail_cons, if_neg hbase,
      htake, hdrop, List.head?_cons]
    rfl

/-- Text of `std::int32_t` is read back. -/
theorem parseSigned_signedText (v : Int32) : parseSigned (signedText v.toInt) = some v := by
  have hdigits := isDigit_of_mem_numeral (n := v.toInt.natAbs) (by decide : 1 < 10) (by decide)
  have hne := numeral_ne_nil 10 v.toInt.natAbs
  have hvalue := value_numeral (by decide : 1 < 10) (by decide) v.toInt.natAbs
  have hmin : Int32.minValue.toInt = -2 ^ 31 := rfl
  have hmax : Int32.maxValue.toInt = 2 ^ 31 - 1 := rfl
  have hle := v.minValue_le_toInt
  have hge := v.toInt_le
  rw [hmin] at hle
  rw [hmax] at hge
  obtain ⟨hbase, hbaseMinus⟩ := integerBase_of_isDigit hdigits hne
  obtain ⟨hscan, hscanMinus⟩ := scanInteger_of_isDigit hdigits hne
  have hnul : ∀ c ∈ signedText v.toInt, c ≠ 0 := by
    intro c hc
    rw [signedText] at hc
    split at hc
    · rcases List.mem_cons.mp hc with rfl | hc
      · decide
      · exact (not_special_of_isDigit (hdigits c hc)).2.2.2.2.2
    · exact (not_special_of_isDigit (hdigits c hc)).2.2.2.2.2
  have htextBase : integerBase (signedText v.toInt) = 10 := by
    rw [signedText]
    split
    · exact hbaseMinus
    · exact hbase
  have hconversion : strtoimax 10 (signedText v.toInt) = ⟨v.toInt, [], false⟩ := by
    have hrange (n : ℤ) (hn : n = v.toInt) : (if n < -2 ^ 63 then ⟨-2 ^ 63, [], true⟩
        else if n ≥ 2 ^ 63 then ⟨2 ^ 63 - 1, [], true⟩ else ⟨n, [], false⟩ : Conversion ℤ) =
          ⟨v.toInt, [], false⟩ := by
      rw [if_neg (by omega), if_neg (by omega), hn]
    by_cases hnegative : v.toInt < 0
    · rw [strtoimax, signedText, if_pos hnegative, hscanMinus]
      dsimp only
      rw [if_neg hne, hvalue, if_pos rfl]
      exact hrange _ (by omega)
    · rw [strtoimax, signedText, if_neg hnegative, hscan]
      dsimp only
      rw [if_neg hne, hvalue, if_neg Bool.false_ne_true]
      exact hrange _ (by omega)
  have htextNe : signedText v.toInt ≠ [] := by
    rw [signedText]
    split
    · exact List.cons_ne_nil _ _
    · exact hne
  rw [parseSigned, htextBase, cText_eq_self hnul]
  dsimp only
  rw [if_neg (by decide), hconversion]
  dsimp only
  rw [if_neg, Int32.ofInt_toInt]
  rintro (hrange | hend | hrest | hminimum | hmaximum)
  · exact Bool.false_ne_true hrange
  · exact htextNe hend.symm
  · exact hrest rfl
  · omega
  · omega

/-- Text of `std::uint32_t` is read back. -/
theorem parseUnsigned_numeral (v : UInt32) : parseUnsigned (numeral 10 v.toNat) = some v := by
  have hdigits := isDigit_of_mem_numeral (n := v.toNat) (by decide : 1 < 10) (by decide)
  have hne := numeral_ne_nil 10 v.toNat
  have hvalue := value_numeral (by decide : 1 < 10) (by decide) v.toNat
  have hlt := v.toNat_lt
  have htext := cText_eq_self fun c hc => (not_special_of_isDigit (hdigits c hc)).2.2.2.2.2
  have hhead : (numeral 10 v.toNat).head? ≠ some 0x2D := fun hhead =>
    (not_special_of_isDigit (hdigits _ (List.mem_of_head? hhead))).2.2.1 rfl
  have hconversion : strtoumax 10 (numeral 10 v.toNat) = ⟨v.toNat, [], false⟩ := by
    rw [strtoumax, (scanInteger_of_isDigit hdigits hne).1]
    dsimp only
    rw [if_neg hne, hvalue, if_neg (by omega)]
    rfl
  rw [parseUnsigned, (integerBase_of_isDigit hdigits hne).1, htext]
  dsimp only
  rw [if_neg (by simp [hhead]), hconversion]
  dsimp only
  rw [if_neg, UInt32.ofNat_toNat]
  rintro (hrange | hend | hrest | hmaximum)
  · exact Bool.false_ne_true hrange
  · exact hne hend.symm
  · exact hrest rfl
  · omega

end Integers

/-! ### File modes are read back up to the maximum -/

theorem isDigit_eight (c : Byte) : isDigit 8 c = true ↔ ¬(c < 0x30 ∨ c > 0x37) := by
  have h30 : (0x30 : Byte).toNat = 0x30 := rfl
  have h37 : (0x37 : Byte).toNat = 0x37 := rfl
  rw [isDigit_iff (by decide) c, gt_iff_lt, UInt8.lt_iff_toNat_lt, UInt8.lt_iff_toNat_lt, h30, h37]
  omega

/-- The loop accepts octal digits whose number is not above the maximum. The numbers of the digits
read so far are no larger. -/
theorem parseModeFrom_eq_some {mode m : ℕ} {text : List Byte} (hmode : mode ≤ kMaximumFileMode) :
    parseModeFrom mode text = some m ↔ (∀ c ∈ text, isDigit 8 c = true) ∧
      mode * 8 ^ text.length + value 8 text = m ∧ m ≤ kMaximumFileMode := by
  induction text generalizing mode with
  | nil =>
    rw [parseModeFrom, Option.some.injEq, List.length_nil, Nat.pow_zero, Nat.mul_one, value_nil]
    constructor
    · rintro rfl
      exact ⟨fun _ hc => absurd hc List.not_mem_nil, rfl, hmode⟩
    · exact fun h => h.2.1
  | cons c text ih =>
    rw [parseModeFrom]
    by_cases hc : isDigit 8 c = true
    · have hbounds := (isDigit_iff (by decide) c).mp hc
      have hdigit := digit_eq (c := c) (by omega)
      have hsum : mode * 8 ^ (text.length + 1) + digit c * 8 ^ text.length =
          (mode * 8 + (c.toNat - 0x30)) * 8 ^ text.length := by
        rw [hdigit]
        ring
      rw [if_neg ((isDigit_eight c).mp hc), List.forall_mem_cons, value_cons, List.length_cons,
        ← Nat.add_assoc, hsum]
      dsimp only
      split
      · rename_i hlarge
        refine iff_of_false (by simp) fun h => ?_
        have hpow := Nat.le_mul_of_pos_right (mode * 8 + (c.toNat - 0x30))
          (Nat.pow_pos (by decide : 0 < 8) : 0 < 8 ^ text.length)
        omega
      · rename_i hsmall
        rw [ih (Nat.le_of_not_lt hsmall)]
        exact ⟨fun h => ⟨⟨hc, h.1⟩, h.2⟩, fun h => ⟨h.1.2, h.2⟩⟩
    · have hrange : c < 0x30 ∨ c > 0x37 := not_not.mp fun h => hc ((isDigit_eight c).mpr h)
      rw [if_pos hrange, List.forall_mem_cons]
      exact iff_of_false (by simp) fun h => hc h.1.1

/-- The locale puts a separator into a number of so many digits. -/
def NumericPunctuation.Separates (locale : NumericPunctuation) (length : ℕ) : Prop :=
  ∃ size ∈ locale.grouping.head?, size ≠ 0 ∧ size < length

/-- The groups hold at least the digits, and the leftmost digit stays the leftmost. -/
theorem groupDigits_spec (separator : Byte) (sizes : List ℕ) (digits : List Byte) :
    digits.length ≤ (groupDigits separator sizes digits).length ∧
      (digits ≠ [] → (groupDigits separator sizes digits).getLast? = digits.getLast?) := by
  induction sizes, digits using groupDigits.induct with
  | case1 digits =>
    rw [groupDigits]
    exact ⟨Nat.le_refl _, fun _ => rfl⟩
  | case2 size sizes digits hend =>
    rw [groupDigits, if_pos hend]
    exact ⟨Nat.le_refl _, fun _ => rfl⟩
  | case3 size sizes digits hgroup ih =>
    obtain ⟨hsize, hlength⟩ := not_or.mp hgroup
    obtain ⟨hle, hlast⟩ := ih
    rw [List.length_drop] at hle
    have hne : digits.drop size ≠ [] := List.ne_nil_of_length_pos (by rw [List.length_drop]; omega)
    rw [groupDigits, if_neg hgroup]
    constructor
    · rw [List.length_append, List.length_take, List.length_cons]
      omega
    · intro hdigits
      have htail := hlast hne
      rw [List.getLast?_drop, if_neg hlength] at htail
      rw [List.getLast?_append, List.getLast?_cons, htail]
      cases hsome : digits.getLast? with
      | none => exact absurd (List.getLast?_eq_none_iff.mp hsome) hdigits
      | some last => rfl

theorem groupDigits_of_not_separates {locale : NumericPunctuation} {digits : List Byte}
    (h : ¬locale.Separates digits.length) :
    groupDigits locale.thousandsSep locale.grouping digits = digits := by
  obtain ⟨grouping, separator⟩ := locale
  cases grouping with
  | nil => rw [groupDigits]
  | cons size sizes =>
    rw [groupDigits, if_pos]
    by_contra hgroup
    obtain ⟨hsize, hlength⟩ := not_or.mp hgroup
    exact h ⟨size, rfl, hsize, Nat.lt_of_not_le hlength⟩

theorem lt_length_groupDigits {locale : NumericPunctuation} {digits : List Byte}
    (h : locale.Separates digits.length) :
    digits.length < (groupDigits locale.thousandsSep locale.grouping digits).length := by
  obtain ⟨grouping, separator⟩ := locale
  obtain ⟨size, hhead, hsize, hlength⟩ := h
  obtain ⟨sizes, rfl⟩ : ∃ sizes, grouping = size :: sizes :=
    ⟨grouping.tail, List.eq_cons_of_mem_head? hhead⟩
  have hle := (groupDigits_spec separator (nextSizes size sizes) (digits.drop size)).1
  rw [List.length_drop] at hle
  rw [groupDigits, if_neg (by omega), List.length_append, List.length_take, List.length_cons]
  dsimp only
  omega

/-- A separator makes the text longer than that of any number up to the mode. -/
theorem lt_value_octalText {locale : NumericPunctuation} {n : ℕ}
    (h : locale.Separates (numeral 8 n).length) : n < value 8 (octalText locale n) := by
  have hn : n ≠ 0 := by
    rintro rfl
    obtain ⟨size, -, hsize, hlength⟩ := h
    rw [numeral, if_pos rfl, List.length_singleton] at hlength
    omega
  have hlength : (numeral 8 n).length < (octalText locale n).length := by
    rw [← List.length_reverse] at h
    have hlt := lt_length_groupDigits h
    rwa [List.length_reverse, ← @List.length_reverse _ (groupDigits ..)] at hlt
  have hhead : (octalText locale n).head? = (numeral 8 n).head? := by
    have hlast := (groupDigits_spec locale.thousandsSep locale.grouping (numeral 8 n).reverse).2
      (by rw [Ne, List.reverse_eq_nil_iff]; exact numeral_ne_nil 8 n)
    rw [octalText, List.head?_reverse, hlast, List.getLast?_reverse]
  obtain ⟨c, rest, htext⟩ := List.exists_cons_of_ne_nil
    (List.ne_nil_of_length_pos (Nat.lt_of_le_of_lt (Nat.zero_le _) hlength))
  have hdigit := digit_head_numeral (by decide : 1 < 8) (by decide) hn c
    (by rw [← hhead, htext]; rfl)
  rw [htext, List.length_cons] at hlength
  have hpow : 8 ^ (numeral 8 n).length ≤ 8 ^ rest.length :=
    Nat.pow_le_pow_right (by decide) (Nat.le_of_lt_succ hlength)
  calc n < 8 ^ (numeral 8 n).length := lt_pow_length_numeral (by decide) n
    _ ≤ 8 ^ rest.length := hpow
    _ ≤ digit c * 8 ^ rest.length := Nat.le_mul_of_pos_left _ hdigit
    _ ≤ value 8 (octalText locale n) := by
      rw [htext, value_cons]
      exact Nat.le_add_right _ _

/-- The zeros before the digits are worth nothing. -/
theorem value_fileModeText (locale : NumericPunctuation) (mode : FileMode) :
    value 8 (fileModeText locale mode) = value 8 (octalText locale mode.value.toNat) := by
  rw [fileModeText, value_zero_cons, value_zeros]

/-- A file mode is read back if and only if it is no larger than the maximum and written without
a separator. -/
theorem parseFileMode_fileModeText (locale : NumericPunctuation) (mode : FileMode) :
    parseFileMode (fileModeText locale mode) = some mode ↔
      mode.value.toNat ≤ kMaximumFileMode ∧
        ¬locale.Separates (numeral 8 mode.value.toNat).length := by
  have hlt := mode.value.toNat_lt
  have hne : fileModeText locale mode ≠ [] := List.cons_ne_nil _ _
  rw [parseFileMode, if_neg hne, Option.map_eq_some_iff]
  simp only [parseModeFrom_eq_some (Nat.zero_le _), Nat.zero_mul, Nat.zero_add, value_fileModeText]
  constructor
  · rintro ⟨m, ⟨hdigits, hvalue, hmaximum⟩, hm⟩
    have hmode : m = mode.value.toNat := by
      have hsmall : m < 2 ^ 32 := Nat.lt_of_le_of_lt hmaximum (by decide)
      rw [← hm, UInt32.toNat_ofNat_of_lt' hsmall]
    subst hmode
    exact ⟨hmaximum, fun hseparates => absurd (lt_value_octalText hseparates) (by omega)⟩
  · rintro ⟨hmaximum, hseparates⟩
    have htext : octalText locale mode.value.toNat = numeral 8 mode.value.toNat := by
      rw [← List.length_reverse] at hseparates
      rw [octalText, groupDigits_of_not_separates hseparates, List.reverse_reverse]
    have hoctal := isDigit_of_mem_numeral (n := mode.value.toNat) (by decide : 1 < 8) (by decide)
    refine ⟨mode.value.toNat, ⟨?_, ?_, hmaximum⟩, ?_⟩
    · rw [fileModeText, htext]
      simp only [List.forall_mem_cons, List.forall_mem_append]
      exact ⟨by decide, fun c hc => (List.eq_of_mem_replicate hc).symm ▸ by decide, hoctal⟩
    · rw [htext, value_numeral (by decide) (by decide)]
    · rw [UInt32.ofNat_toNat]

/-- The values whose text is read back. -/
def FlagType.Restorable (locale : NumericPunctuation) : (type : FlagType) → type.Value → Prop
  | .fileMode, mode => mode.value.toNat ≤ kMaximumFileMode ∧
      ¬locale.Separates (numeral 8 mode.value.toNat).length
  | _, _ => True

/-- A value is read back from its text if and only if it is no file mode above the maximum and the
locale does not group the digits of its text. -/
theorem parse_text_iff (locale : NumericPunctuation) (type : FlagType) (v output : type.Value) :
    type.parse (type.text locale v) output = some v ↔ type.Restorable locale v := by
  cases type with
  | bool =>
    have hround : ∀ v, parseBoolean (booleanText v) = some v := by decide +kernel
    exact iff_of_true (hround v) trivial
  | int32 => exact iff_of_true (parseSigned_signedText v) trivial
  | uint32 => exact iff_of_true (parseUnsigned_numeral v) trivial
  | string => exact iff_of_true rfl trivial
  | fileMode => exact parseFileMode_fileModeText locale v

end FlagValues

end NgLog
