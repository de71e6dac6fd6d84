import NgLog.Support.Unicode
import Mathlib.Data.List.Forall2

/-!
# The well-formed byte sequences of UTF-8

The bytes of a character start with a byte that gives their number, and the bytes that follow it are
continuation bytes. Not all such sequences encode a character: some are overlong, some would encode
a surrogate, and some a number beyond U+10FFFF. The table of the well-formed sequences says this
with ranges alone, one for each byte, where only the range of the second byte depends on the first.

## Main definitions

* `wellFormedRows` — the table
* `IsSequence` — the bytes lie in the ranges of one row
* `WellFormed` — a text is a concatenation of such sequences

## Main results

* `isSequence_encode`, `IsSequence.exists_char` — the sequences are the encodings of the characters
* `wellFormed_iff` — the texts are the encodings of the lists of characters
-/

namespace NgLog

namespace Unicode

/-- A range of bytes, both ends included. -/
structure ByteRange where
  first : UInt8
  last : UInt8

/-- A byte lies in a range. -/
def ByteRange.Contains (range : ByteRange) (byte : UInt8) : Prop :=
  range.first ≤ byte ∧ byte ≤ range.last

instance ByteRange.decidableContains (range : ByteRange) (byte : UInt8) :
    Decidable (range.Contains byte) := instDecidableAnd

/-- The continuation bytes. -/
def continuation : ByteRange := ⟨0x80, 0xbf⟩

/-- The well-formed sequences, by the ranges of their bytes. -/
def wellFormedRows : List (List ByteRange) :=
  [[⟨0x00, 0x7f⟩],
    [⟨0xc2, 0xdf⟩, continuation],
    [⟨0xe0, 0xe0⟩, ⟨0xa0, 0xbf⟩, continuation],
    [⟨0xe1, 0xec⟩, continuation, continuation],
    [⟨0xed, 0xed⟩, ⟨0x80, 0x9f⟩, continuation],
    [⟨0xee, 0xef⟩, continuation, continuation],
    [⟨0xf0, 0xf0⟩, ⟨0x90, 0xbf⟩, continuation, continuation],
    [⟨0xf1, 0xf3⟩, continuation, continuation, continuation],
    [⟨0xf4, 0xf4⟩, ⟨0x80, 0x8f⟩, continuation, continuation]]

/-- A well-formed sequence: the bytes of one character. -/
def IsSequence (bytes : List UInt8) : Prop :=
  ∃ row ∈ wellFormedRows, List.Forall₂ ByteRange.Contains row bytes

/-- A well-formed text. -/
def WellFormed (bytes : List UInt8) : Prop :=
  ∃ sequences : List (List UInt8), (∀ s ∈ sequences, IsSequence s) ∧ sequences.flatten = bytes

/-! ### The rows of each length -/

theorem contains_iff {range : ByteRange} {byte : UInt8} :
    range.Contains byte ↔ range.first.toNat ≤ byte.toNat ∧ byte.toNat ≤ range.last.toNat := by
  rw [ByteRange.Contains, UInt8.le_iff_toNat_le, UInt8.le_iff_toNat_le]

theorem isSequence_one_iff {a : UInt8} : IsSequence [a] ↔ a.toNat ≤ 0x7f := by
  simp [IsSequence, wellFormedRows, contains_iff]

theorem isSequence_two_iff {a b : UInt8} :
    IsSequence [a, b] ↔ (0xc2 ≤ a.toNat ∧ a.toNat ≤ 0xdf) ∧ continuation.Contains b := by
  simp [IsSequence, wellFormedRows, contains_iff]

theorem isSequence_three_iff {a b c : UInt8} :
    IsSequence [a, b, c] ↔ (0xe0 ≤ a.toNat ∧ a.toNat ≤ 0xef) ∧ continuation.Contains b ∧
      continuation.Contains c ∧ (a.toNat = 0xe0 → 0xa0 ≤ b.toNat) ∧
      (a.toNat = 0xed → b.toNat ≤ 0x9f) := by
  simp only [IsSequence, wellFormedRows, contains_iff, continuation, List.mem_cons,
    List.not_mem_nil, or_false, exists_eq_or_imp, exists_eq_left, List.forall₂_cons,
    List.forall₂_nil_left_iff, reduceCtorEq, and_false, false_or, and_true]
  simp
  omega

theorem isSequence_four_iff {a b c d : UInt8} :
    IsSequence [a, b, c, d] ↔ (0xf0 ≤ a.toNat ∧ a.toNat ≤ 0xf4) ∧ continuation.Contains b ∧
      continuation.Contains c ∧ continuation.Contains d ∧ (a.toNat = 0xf0 → 0x90 ≤ b.toNat) ∧
      (a.toNat = 0xf4 → b.toNat ≤ 0x8f) := by
  simp only [IsSequence, wellFormedRows, contains_iff, continuation, List.mem_cons,
    List.not_mem_nil, or_false, exists_eq_or_imp, exists_eq_left, List.forall₂_cons,
    List.forall₂_nil_left_iff, reduceCtorEq, and_false, false_or, and_true]
  simp
  omega

theorem IsSequence.length {s : List UInt8} (h : IsSequence s) : 0 < s.length ∧ s.length ≤ 4 := by
  obtain ⟨row, hrow, hforall⟩ := h
  have hrows : ∀ row ∈ wellFormedRows, 0 < row.length ∧ row.length ≤ 4 := by decide
  rw [← hforall.length_eq]
  exact hrows row hrow

/-- The bytes of a sequence, one by one. -/
theorem IsSequence.cases {s : List UInt8} (h : IsSequence s) :
    (∃ a, s = [a]) ∨ (∃ a b, s = [a, b]) ∨ (∃ a b c, s = [a, b, c]) ∨
      ∃ a b c d, s = [a, b, c, d] := by
  obtain ⟨hpos, hfour⟩ := h.length
  rcases s with _ | ⟨a, _ | ⟨b, _ | ⟨c, _ | ⟨d, _ | ⟨e, s⟩⟩⟩⟩⟩
  · exact absurd hpos (Nat.lt_irrefl 0)
  · exact .inl ⟨a, rfl⟩
  · exact .inr (.inl ⟨a, b, rfl⟩)
  · exact .inr (.inr (.inl ⟨a, b, c, rfl⟩))
  · exact .inr (.inr (.inr ⟨a, b, c, d, rfl⟩))
  · simp only [List.length_cons] at hfour
    omega

/-- The first byte is no continuation byte, and the others are. -/
theorem IsSequence.continuation_tail {a : UInt8} {s : List UInt8} (h : IsSequence (a :: s)) :
    ¬continuation.Contains a ∧ ∀ b ∈ s, continuation.Contains b := by
  have hfirst : a.toNat < 0x80 ∨ 0xbf < a.toNat → ¬continuation.Contains a := by
    intro hrange hcontains
    simp only [contains_iff, continuation, UInt8.reduceToNat] at hcontains
    omega
  rcases h.cases with ⟨a, hs⟩ | ⟨a, b, hs⟩ | ⟨a, b, c, hs⟩ | ⟨a, b, c, d, hs⟩ <;> cases hs
  · rw [isSequence_one_iff] at h
    exact ⟨hfirst (by omega), fun _ hnil => absurd hnil List.not_mem_nil⟩
  · rw [isSequence_two_iff] at h
    exact ⟨hfirst (by omega), by simpa using h.2⟩
  · rw [isSequence_three_iff] at h
    exact ⟨hfirst (by omega), by simpa using ⟨h.2.1, h.2.2.1⟩⟩
  · rw [isSequence_four_iff] at h
    exact ⟨hfirst (by omega), by simpa using ⟨h.2.1, h.2.2.1, h.2.2.2.1⟩⟩

/-! ### The characters of the sequences -/

/-- The character of a scalar value. -/
theorem exists_char_of_isValidChar {n : ℕ} (h : n.isValidChar) :
    ∃ ch : Char, ch.val.toNat = n := by
  refine ⟨Char.ofNat n, ?_⟩
  rw [Char.ofNat, dif_pos h]
  rfl

theorem isSequence_encode (ch : Char) : IsSequence (encode [ch]) := by
  have hvalid := (isValidChar_iff ch.val).mp ch.valid
  rw [encode_singleton, String.utf8EncodeChar]
  split_ifs with hone htwo hthree
  · rw [isSequence_one_iff, UInt8.toNat_ofNat']
    omega
  · simp only [isSequence_two_iff, contains_iff, continuation, UInt8.toNat_ofNat',
      UInt8.toNat_ofNat]
    omega
  · simp only [isSequence_three_iff, contains_iff, continuation, UInt8.toNat_ofNat',
      UInt8.toNat_ofNat]
    omega
  · simp only [isSequence_four_iff, contains_iff, continuation, UInt8.toNat_ofNat',
      UInt8.toNat_ofNat]
    omega

/-- The bytes of one character: the number that its bits in the bytes form. -/
theorem IsSequence.exists_char {s : List UInt8} (h : IsSequence s) : ∃ ch, encode [ch] = s := by
  rcases h.cases with ⟨a, rfl⟩ | ⟨a, b, rfl⟩ | ⟨a, b, c, rfl⟩ | ⟨a, b, c, d, rfl⟩
  · rw [isSequence_one_iff] at h
    obtain ⟨ch, hch⟩ := exists_char_of_isValidChar (n := a.toNat) (.inl (by omega))
    refine ⟨ch, ?_⟩
    rw [encode_singleton, String.utf8EncodeChar, hch, if_pos h, UInt8.ofNat_toNat]
  · simp only [isSequence_two_iff, contains_iff, continuation, UInt8.toNat_ofNat] at h
    obtain ⟨ch, hch⟩ := exists_char_of_isValidChar
      (n := (a.toNat - 0xc0) * 64 + (b.toNat - 0x80)) (.inl (by omega))
    refine ⟨ch, ?_⟩
    rw [encode_singleton, String.utf8EncodeChar, hch, if_neg (by omega), if_pos (by omega)]
    simp only [List.cons.injEq, and_true, ← UInt8.toNat_inj, UInt8.toNat_ofNat']
    omega
  · simp only [isSequence_three_iff, contains_iff, continuation, UInt8.toNat_ofNat] at h
    obtain ⟨ch, hch⟩ := exists_char_of_isValidChar
      (n := (a.toNat - 0xe0) * 4096 + (b.toNat - 0x80) * 64 + (c.toNat - 0x80))
      (by rw [Nat.isValidChar]; omega)
    refine ⟨ch, ?_⟩
    rw [encode_singleton, String.utf8EncodeChar, hch, if_neg (by omega), if_neg (by omega),
      if_pos (by omega)]
    simp only [List.cons.injEq, and_true, ← UInt8.toNat_inj, UInt8.toNat_ofNat']
    omega
  · simp only [isSequence_four_iff, contains_iff, continuation, UInt8.toNat_ofNat] at h
    obtain ⟨ch, hch⟩ := exists_char_of_isValidChar
      (n := (a.toNat - 0xf0) * 262144 + (b.toNat - 0x80) * 4096 + (c.toNat - 0x80) * 64 +
        (d.toNat - 0x80)) (by rw [Nat.isValidChar]; omega)
    refine ⟨ch, ?_⟩
    rw [encode_singleton, String.utf8EncodeChar, hch, if_neg (by omega), if_neg (by omega),
      if_neg (by omega)]
    simp only [List.cons.injEq, and_true, ← UInt8.toNat_inj, UInt8.toNat_ofNat']
    omega

/-! ### Texts -/

theorem wellFormed_nil : WellFormed [] := ⟨[], fun _ h => absurd h List.not_mem_nil, rfl⟩

theorem IsSequence.append {s bytes : List UInt8} (hs : IsSequence s) (h : WellFormed bytes) :
    WellFormed (s ++ bytes) := by
  obtain ⟨sequences, hsequences, rfl⟩ := h
  refine ⟨s :: sequences, fun s' hs' => ?_, rfl⟩
  rcases List.mem_cons.mp hs' with rfl | hmem
  · exact hs
  · exact hsequences s' hmem

/-- A well-formed text is empty or starts with a sequence. -/
theorem WellFormed.cases {bytes : List UInt8} (h : WellFormed bytes) :
    bytes = [] ∨ ∃ s rest, IsSequence s ∧ WellFormed rest ∧ bytes = s ++ rest := by
  obtain ⟨sequences, hsequences, rfl⟩ := h
  rcases sequences with _ | ⟨s, sequences⟩
  · exact .inl rfl
  · exact .inr ⟨s, sequences.flatten, hsequences s (List.mem_cons_self ..),
      ⟨sequences, fun s' hs' => hsequences s' (List.mem_cons_of_mem _ hs'), rfl⟩, rfl⟩

/-- The well-formed texts are the encodings of the lists of characters. -/
theorem wellFormed_iff {bytes : List UInt8} : WellFormed bytes ↔ ∃ text, encode text = bytes := by
  constructor
  · rintro ⟨sequences, hsequences, rfl⟩
    induction sequences with
    | nil => exact ⟨[], rfl⟩
    | cons s sequences ih =>
      obtain ⟨ch, hch⟩ := (hsequences s (List.mem_cons_self ..)).exists_char
      obtain ⟨text, htext⟩ := ih fun s' hs' => hsequences s' (List.mem_cons_of_mem _ hs')
      refine ⟨ch :: text, ?_⟩
      rw [List.flatten_cons, ← hch, ← htext, ← encode_append, List.singleton_append]
  · rintro ⟨text, rfl⟩
    induction text with
    | nil => exact wellFormed_nil
    | cons ch text ih =>
      rw [← List.singleton_append, encode_append]
      exact (isSequence_encode ch).append ih

end Unicode

end NgLog
