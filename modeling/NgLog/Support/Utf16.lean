import NgLog.Support.Unicode

/-!
# The UTF-16 encoding of characters and the boundaries of a text in UTF-16

A text in UTF-16 may hold surrogates without a partner, which mean U+FFFD. Its characters do not
determine it then, but every way of cutting the characters in two still comes from a way of cutting
the units. U+FFFD itself counts the losses: encoding the characters again gives one unit U+FFFD for
each unit of that value and one for each surrogate without a partner.

## Main definitions

* `utf16Units`, `encodeUtf16` — the UTF-16 encoding
* `Cut` — a cut of the units that no surrogate pair lies across
* `replacements` — how often the unit U+FFFD occurs

## Main results

* `decodeUtf16_split`, `cut_iff` — the cuts of the characters are such cuts of the units
* `replacements_encodeUtf16`, `replacements_le_decodeUtf16` — what encoding again does to the count
* `encode_inj` — UTF-8 is injective
-/

namespace NgLog

namespace Unicode

/-- The UTF-16 encoding of a character. -/
def utf16Units (c : Char) : List UInt16 :=
  if c.val ≤ 0xffff then [c.val.toUInt16]
  else [(0xd800 + (c.val - 0x10000) / 0x400).toUInt16,
    (0xdc00 + (c.val - 0x10000) % 0x400).toUInt16]

/-- The units of a text in UTF-16. -/
def encodeUtf16 (text : List Char) : List UInt16 := text.flatMap utf16Units

/-- The units of a text in UTF-16, as the decoder takes them. -/
def unitValues (wide : List UInt16) : List UInt32 := wide.map UInt16.toUInt32

@[simp] theorem encodeUtf16_nil : encodeUtf16 [] = [] := rfl

theorem encodeUtf16_append (text text' : List Char) :
    encodeUtf16 (text ++ text') = encodeUtf16 text ++ encodeUtf16 text' := List.flatMap_append

theorem encodeUtf16_cons (c : Char) (text : List Char) :
    encodeUtf16 (c :: text) = utf16Units c ++ encodeUtf16 text := List.flatMap_cons

theorem utf16Units_ne_nil (c : Char) : utf16Units c ≠ [] := by
  rw [utf16Units]
  split <;> exact List.cons_ne_nil _ _

theorem encodeUtf16_eq_nil_iff {text : List Char} : encodeUtf16 text = [] ↔ text = [] := by
  cases text with
  | nil => simp
  | cons c text => simp [encodeUtf16_cons, utf16Units_ne_nil]

/-- A character takes at least as many bytes in UTF-8 as units in UTF-16. -/
theorem length_utf16Units_le (c : Char) : (utf16Units c).length ≤ (encode [c]).length := by
  rw [encode_singleton, String.length_utf8EncodeChar]
  rw [utf16Units]
  split
  · exact c.utf8Size_pos
  · rename_i hlarge
    rw [UInt32.le_iff_toNat_le] at hlarge
    have hone : ¬c.utf8Size = 1 := by
      rw [Char.utf8Size_eq_one_iff, UInt32.le_iff_toNat_le]
      change ¬c.val.toNat ≤ 0x7f
      change ¬c.val.toNat ≤ 0xffff at hlarge
      omega
    have hpos := c.utf8Size_pos
    change 2 ≤ c.utf8Size
    omega

theorem length_encodeUtf16_le (text : List Char) :
    (encodeUtf16 text).length ≤ (encode text).length := by
  induction text with
  | nil => exact Nat.le_refl _
  | cons c text ih =>
    have hc := length_utf16Units_le c
    rw [encode_singleton] at hc
    rw [encodeUtf16_cons, encode_cons, List.length_append, List.length_append]
    exact Nat.add_le_add hc ih

/-! ### UTF-8 is injective -/

theorem encode_eq_utf8Encode (text : List Char) : (encode text).toByteArray = text.utf8Encode := rfl

theorem encode_inj {text text' : List Char} (h : encode text = encode text') : text = text' := by
  have hstring : String.ofList text = String.ofList text' := by
    rw [← String.toByteArray_inj, String.toByteArray_ofList, String.toByteArray_ofList,
      ← encode_eq_utf8Encode, ← encode_eq_utf8Encode, h]
  have hlist := congrArg String.toList hstring
  rwa [String.toList_ofList, String.toList_ofList] at hlist

/-! ### Boundaries -/

theorem not_isLowSurrogate_of_high {unit : UInt32} (h : IsHighSurrogate unit) :
    ¬IsLowSurrogate unit := fun hlow => by
  rw [IsHighSurrogate] at h
  rw [IsLowSurrogate] at hlow
  omega

theorem decodeUtf16_ne_nil {units : List UInt32} (h : units ≠ []) : decodeUtf16 units ≠ [] := by
  match units, h with
  | [_], _ => exact List.cons_ne_nil _ _
  | high :: low :: units, _ =>
    rw [decodeUtf16]
    split <;> exact List.cons_ne_nil _ _

theorem decodeUtf16_eq_nil_iff {units : List UInt32} : decodeUtf16 units = [] ↔ units = [] :=
  ⟨fun h => by_contra fun hne => decodeUtf16_ne_nil hne h, fun h => h ▸ rfl⟩

/-- A cut of the characters comes from a cut of the units, by induction on the units. -/
theorem decodeUtf16_split {units : List UInt32} {p q : List Char}
    (h : decodeUtf16 units = p ++ q) :
    ∃ u v, units = u ++ v ∧ decodeUtf16 u = p ∧ decodeUtf16 v = q := by
  induction units using decodeUtf16.induct generalizing p with
  | case1 =>
    obtain ⟨rfl, rfl⟩ := List.append_eq_nil_iff.mp h.symm
    exact ⟨[], [], rfl, rfl, rfl⟩
  | case2 unit =>
    rw [decodeUtf16_singleton] at h
    rcases p with _ | ⟨c, p⟩
    · exact ⟨[], [unit], rfl, rfl, h⟩
    · obtain ⟨rfl, hnil⟩ := List.cons.inj h
      obtain ⟨rfl, rfl⟩ := List.append_eq_nil_iff.mp hnil.symm
      exact ⟨[unit], [], rfl, rfl, rfl⟩
  | case3 high low units hpair ih =>
    rcases p with _ | ⟨c, p⟩
    · exact ⟨[], _, rfl, rfl, h⟩
    · rw [decodeUtf16_pair hpair.1 hpair.2, List.cons_append] at h
      obtain ⟨rfl, hrest⟩ := List.cons.inj h
      obtain ⟨u, v, rfl, rfl, hv⟩ := ih hrest
      exact ⟨high :: low :: u, v, rfl, decodeUtf16_pair hpair.1 hpair.2 u, hv⟩
  | case4 high low units hpair ih =>
    rcases p with _ | ⟨c, p⟩
    · exact ⟨[], _, rfl, rfl, h⟩
    · rw [decodeUtf16, if_neg hpair, List.cons_append] at h
      obtain ⟨rfl, hrest⟩ := List.cons.inj h
      obtain ⟨u, v, huv, rfl, hv⟩ := ih hrest
      refine ⟨high :: u, v, by rw [huv, List.cons_append], ?_, hv⟩
      rcases u with _ | ⟨low', u⟩
      · rfl
      · obtain ⟨rfl, -⟩ := List.cons.inj huv
        rw [decodeUtf16, if_neg hpair]

/-- A cut of the units that no surrogate pair lies across. -/
def Cut (u v : List UInt32) : Prop :=
  ∀ before high low after, u = before ++ [high] → v = low :: after → IsHighSurrogate high →
    ¬IsLowSurrogate low

theorem Cut.tail {unit : UInt32} {u v : List UInt32} (h : Cut (unit :: u) v) : Cut u v :=
  fun before high low after hu hv => h (unit :: before) high low after (hu ▸ rfl) hv

theorem cut_of_not_isLowSurrogate (u : List UInt32) {low : UInt32} (hlow : ¬IsLowSurrogate low)
    (v : List UInt32) : Cut u (low :: v) := by
  rintro before high low' after - hv -
  obtain ⟨rfl, -⟩ := List.cons.inj hv
  exact hlow

/-- The two sides of such a cut are decoded separately, by induction on the units before it. -/
theorem Cut.decodeUtf16_append {u v : List UInt32} (h : Cut u v) :
    decodeUtf16 (u ++ v) = decodeUtf16 u ++ decodeUtf16 v := by
  induction u using decodeUtf16.induct with
  | case1 => rfl
  | case2 unit =>
    rcases v with _ | ⟨low, v⟩
    · rfl
    · have hpair : ¬(IsHighSurrogate unit ∧ IsLowSurrogate low) := fun hpair =>
        h [] unit low v rfl rfl hpair.1 hpair.2
      rw [List.cons_append, List.nil_append, decodeUtf16.eq_def]
      exact if_neg hpair
  | case3 high low units hpair ih =>
    rw [List.cons_append, List.cons_append, decodeUtf16_pair hpair.1 hpair.2,
      decodeUtf16_pair hpair.1 hpair.2, ih h.tail.tail, List.cons_append]
  | case4 high low units hpair ih =>
    have htail := ih h.tail
    rw [List.cons_append] at htail
    rw [List.cons_append, List.cons_append, decodeUtf16, if_neg hpair, decodeUtf16, if_neg hpair,
      htail, List.cons_append]

theorem cut_iff {u v : List UInt32} :
    Cut u v ↔ decodeUtf16 (u ++ v) = decodeUtf16 u ++ decodeUtf16 v := by
  refine ⟨Cut.decodeUtf16_append, ?_⟩
  rintro h before high low after rfl rfl hhigh hlow
  have hhigh' := not_isLowSurrogate_of_high hhigh
  have hlow' : ¬IsHighSurrogate low := fun hlow' => not_isLowSurrogate_of_high hlow' hlow
  -- a pair is one character, but its halves are two
  have hlength := congrArg List.length h
  rw [List.append_assoc, List.singleton_append,
    (cut_of_not_isLowSurrogate before hhigh' _).decodeUtf16_append,
    (cut_of_not_isLowSurrogate before hhigh' _).decodeUtf16_append, decodeUtf16_pair hhigh hlow,
    decodeUtf16_other hlow', decodeUtf16_singleton] at hlength
  simp only [List.length_append, List.length_cons, List.length_nil] at hlength
  omega

/-! ### Counting U+FFFD -/

/-- How often the unit U+FFFD occurs. -/
def replacements (units : List UInt32) : ℕ := units.count 0xfffd

theorem replacements_append (units units' : List UInt32) :
    replacements (units ++ units') = replacements units + replacements units' := List.count_append

theorem replacements_cons (unit : UInt32) (units : List UInt32) :
    replacements (unit :: units) = (if unit = 0xfffd then 1 else 0) + replacements units := by
  rw [replacements, List.count_cons, Nat.add_comm]
  congr 1
  exact if_congr beq_iff_eq rfl rfl

theorem replacements_singleton_of_high {unit : UInt32} (h : IsHighSurrogate unit) :
    replacements [unit] = 0 := by
  rw [replacements_cons, if_neg]
  · rfl
  · rintro rfl
    exact absurd h (by decide)

theorem scalar_replacement : scalar 0xfffd = replacement := by decide

theorem toNat_sub_supplementary {value : UInt32} (h : ¬value.toNat ≤ 0xffff) :
    (value - 0x10000).toNat = value.toNat - 0x10000 :=
  UInt32.toNat_sub_of_le _ _ (UInt32.le_iff_toNat_le.mpr (Nat.lt_of_not_le h))

/-- Encoding a character again gives the unit U+FFFD for the replacement character only. -/
theorem replacements_utf16Units (c : Char) :
    replacements (unitValues (utf16Units c)) = if c = replacement then 1 else 0 := by
  have hval : c = replacement ↔ c.val.toNat = 0xfffd := by
    rw [Char.ext_iff, ← UInt32.toNat_inj]
    rfl
  have hlt : c.val.toNat < 0x110000 := Nat.lt_succ_of_le ((isValidChar_iff c.val).mp c.valid).2
  by_cases hsmall : c.val ≤ 0xffff
  · rw [utf16Units, if_pos hsmall, unitValues, List.map_singleton, replacements_cons]
    refine if_congr ?_ rfl rfl
    rw [UInt32.le_iff_toNat_le] at hsmall
    change c.val.toNat ≤ 0xffff at hsmall
    rw [hval, ← UInt32.toNat_inj, UInt16.toNat_toUInt32, UInt32.toNat_toUInt16]
    change c.val.toNat % 65536 = 65533 ↔ _
    omega
  · rw [utf16Units, if_neg hsmall, unitValues, List.map_cons, List.map_singleton,
      replacements_cons, replacements_cons]
    rw [UInt32.le_iff_toNat_le] at hsmall
    change ¬c.val.toNat ≤ 0xffff at hsmall
    have hsub := toNat_sub_supplementary hsmall
    rw [if_neg, if_neg, if_neg]
    · rfl
    · rw [hval]
      omega
    -- neither surrogate is U+FFFD
    · rw [← UInt32.toNat_inj, UInt16.toNat_toUInt32, UInt32.toNat_toUInt16, UInt32.toNat_add,
        UInt32.toNat_mod, hsub]
      change ¬(0xdc00 + (c.val.toNat - 0x10000) % 0x400) % 2 ^ 32 % 2 ^ 16 = 0xfffd
      omega
    · rw [← UInt32.toNat_inj, UInt16.toNat_toUInt32, UInt32.toNat_toUInt16, UInt32.toNat_add,
        UInt32.toNat_div, hsub]
      change ¬(0xd800 + (c.val.toNat - 0x10000) / 0x400) % 2 ^ 32 % 2 ^ 16 = 0xfffd
      omega

/-- Encoding a text again gives the unit U+FFFD for its replacement characters. -/
theorem replacements_encodeUtf16 (text : List Char) :
    replacements (unitValues (encodeUtf16 text)) = text.count replacement := by
  induction text with
  | nil => rfl
  | cons c text ih =>
    rw [encodeUtf16_cons, unitValues, List.map_append, replacements_append]
    change replacements (unitValues _) + replacements (unitValues _) = _
    rw [ih, replacements_utf16Units, List.count_cons, Nat.add_comm]
    congr 1
    exact if_congr beq_iff_eq.symm rfl rfl

theorem replacements_singleton_le (unit : UInt32) :
    replacements [unit] ≤ [scalar unit].count replacement := by
  rw [replacements_cons]
  split
  · rename_i h
    rw [h, scalar_replacement, List.count_singleton_self]
    exact Nat.le_refl 1
  · exact Nat.zero_le _

theorem replacements_pair {high low : UInt32} (hhigh : IsHighSurrogate high)
    (hlow : IsLowSurrogate low) : replacements [high, low] = 0 := by
  have hne : low ≠ 0xfffd := by
    rintro rfl
    exact absurd hlow (by decide)
  rw [← List.singleton_append, replacements_append, replacements_singleton_of_high hhigh,
    replacements_cons, if_neg hne]
  rfl

/-- The unit U+FFFD is decoded to the replacement character, by induction on the units. -/
theorem replacements_le_decodeUtf16 (units : List UInt32) :
    replacements units ≤ (decodeUtf16 units).count replacement := by
  induction units using decodeUtf16.induct with
  | case1 => exact Nat.le_refl _
  | case2 unit => exact replacements_singleton_le unit
  | case3 high low units hpair ih =>
    have hsplit := replacements_append [high, low] units
    rw [replacements_pair hpair.1 hpair.2, Nat.zero_add] at hsplit
    rw [decodeUtf16_pair hpair.1 hpair.2, List.count_cons]
    exact Nat.le_trans (Nat.le_of_eq hsplit) (Nat.le_trans ih (Nat.le_add_right _ _))
  | case4 high low units hpair ih =>
    have hsplit := replacements_append [high] (low :: units)
    have hcount : ([scalar high] ++ decodeUtf16 (low :: units)).count replacement = _ :=
      List.count_append
    rw [decodeUtf16, if_neg hpair]
    calc replacements ([high] ++ low :: units)
        = replacements [high] + replacements (low :: units) := hsplit
      _ ≤ [scalar high].count replacement + (decodeUtf16 (low :: units)).count replacement :=
        Nat.add_le_add (replacements_singleton_le high) ih
      _ = _ := hcount.symm

/-- A high surrogate at the end of the units has no partner, and is one replacement more. -/
theorem replacements_lt_decodeUtf16 {units : List UInt32} {high : UInt32}
    (hhigh : IsHighSurrogate high) :
    replacements (units ++ [high]) < (decodeUtf16 (units ++ [high])).count replacement := by
  have hcut := cut_of_not_isLowSurrogate units (not_isLowSurrogate_of_high hhigh) []
  rw [hcut.decodeUtf16_append, List.count_append, replacements_append,
    replacements_singleton_of_high hhigh, decodeUtf16_singleton, scalar_of_isHighSurrogate hhigh,
    List.count_singleton_self, Nat.add_zero]
  exact Nat.lt_succ_of_le (replacements_le_decodeUtf16 units)

end Unicode

end NgLog
