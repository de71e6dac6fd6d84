import NgLog.Support.Buffers

/-!
# Strings in arrays

An array holds a string if the string is what precedes its first NUL. `strncpy` writes a whole
array: it reads the source up to its NUL and fills up with more of them, or it stops in the middle
of the source and writes none.

## Main definitions

* `HoldsString` — the string of an array
* `strncpy`, `writeByte` — a copy, and an assignment
* `padded` — a string cut to an array, and NULs behind it

## Main results

* `strncpy_eq` — what `strncpy` writes
* `take_append_cut` — strings may be cut before they are put together
* `holdsString_padded` — the string of an array that is filled up
-/

namespace NgLog

/-- `text` is what precedes the first NUL of an array. -/
def HoldsString (array text : List Byte) : Prop := 0 ∉ text ∧ ∃ rest, array = text ++ 0 :: rest

/-- The bytes that `std::strncpy` writes, unless the source ends before its NUL. -/
def strncpy : (source : List Byte) → (count : ℕ) → Option (List Byte)
  | _, 0 => some []
  | [], _ + 1 => none
  | c :: source, count + 1 =>
    if c = 0 then some (List.replicate (count + 1) 0) else (strncpy source count).map (c :: ·)

/-- `array[index] = byte`, unless the index is out of bounds. -/
def writeByte (array : List Byte) (index : ℕ) (byte : Byte) : Option (List Byte) :=
  if index < array.length then some (array.set index byte) else none

/-- A string in an array of `size` bytes: cut so that a NUL fits behind it, and NULs up to the
end. -/
def padded (size : ℕ) (text : List Byte) : List Byte :=
  text.take (size - 1) ++ List.replicate (size - min (size - 1) text.length) 0

variable {array source text : List Byte} {count size : ℕ}

theorem writeByte_append (text : List Byte) {rest : List Byte} (h : 0 < rest.length) (byte : Byte) :
    writeByte (text ++ rest) text.length byte = some (text ++ byte :: rest.drop 1) := by
  obtain ⟨c, rest, rfl⟩ := List.exists_cons_of_length_pos h
  rw [writeByte, if_pos (by rw [List.length_append]; omega),
    List.set_append_right _ _ (Nat.le_refl _),
    Nat.sub_self]
  rfl

/-! ### Copies -/

theorem CString.holdsString (s : CString) : HoldsString s.array s.text := ⟨s.noNul, [], rfl⟩

/-- The string is read up to its NUL, if the copy does not end before. -/
theorem strncpy_eq (h : HoldsString source text) (count : ℕ) :
    strncpy source count = some (text.take count ++ List.replicate (count - text.length) 0) := by
  obtain ⟨hnul, rest, rfl⟩ := h
  induction text generalizing count with
  | nil =>
    cases count with
    | zero => rfl
    | succ count => exact if_pos rfl
  | cons c text ih =>
    cases count with
    | zero =>
      rw [strncpy, List.take_zero, Nat.zero_sub]
      rfl
    | succ count =>
      have hc : c ≠ 0 := fun h => hnul (h ▸ List.mem_cons_self)
      have htail := ih count fun h => hnul (List.mem_cons_of_mem c h)
      rw [List.cons_append, strncpy, if_neg hc, htail, List.take_succ_cons, List.length_cons,
        Nat.add_sub_add_right]
      rfl

theorem length_strncpy (count : ℕ) (text : List Byte) :
    (text.take count ++ List.replicate (count - text.length) (0 : Byte)).length = count := by
  rw [List.length_append, List.length_take, List.length_replicate]
  omega

/-- The last byte of a copy is overwritten with a NUL. -/
theorem set_strncpy (hpos : 0 < count) (text : List Byte) :
    (text.take count ++ List.replicate (count - text.length) 0).set (count - 1) 0 =
      padded count text := by
  have hlength := length_strncpy count text
  have hlast : (text.take count ++ List.replicate (count - text.length) (0 : Byte)).drop
      (count - 1 + 1) = [] := List.drop_eq_nil_of_le (by omega)
  have hcut : (text.take count ++ List.replicate (count - text.length) (0 : Byte)).take
      (count - 1) =
        text.take (count - 1) ++ List.replicate (count - 1 - min (count - 1) text.length) 0 := by
    rw [List.take_append, List.take_take, List.take_replicate, List.length_take,
      Nat.min_eq_left (Nat.sub_le count 1)]
    congr 2
    omega
  have hcount : count - min (count - 1) text.length =
      count - 1 - min (count - 1) text.length + 1 := by omega
  rw [List.set_eq_take_append_cons_drop, if_pos (by omega), hlast, hcut, padded, hcount,
    List.replicate_succ', List.append_assoc]

/-! ### Cut strings -/

/-- A string may be cut before another one is put behind it. -/
theorem take_append_cut (size : ℕ) (text text' : List Byte) :
    (text.take size ++ text').take size = (text ++ text').take size := by
  rw [List.take_append, List.take_append, List.take_take, Nat.min_self, List.length_take]
  congr 2
  omega

theorem length_padded (hpos : 0 < size) (text : List Byte) : (padded size text).length = size := by
  rw [padded, List.length_append, List.length_take, List.length_replicate]
  omega

/-- What is put behind a string is cut to what is left. -/
theorem append_padded (h : text.length < size) (text' : List Byte) :
    text ++ padded (size - text.length) text' = padded size (text ++ text') := by
  have hroom : size - text.length - 1 = size - 1 - text.length := by omega
  have hcut : (text ++ text').take (size - 1) = text ++ text'.take (size - 1 - text.length) := by
    rw [List.take_append, List.take_of_length_le (by omega)]
  rw [padded, padded, hcut, hroom, List.append_assoc, List.length_append]
  congr 3
  omega

/-- The array of a padded string holds the string that was cut. -/
theorem holdsString_padded (hpos : 0 < size) (hnul : 0 ∉ text) (behind : List Byte) :
    HoldsString (padded size text ++ behind) (text.take (size - 1)) := by
  have hcount : size - min (size - 1) text.length =
      size - 1 - min (size - 1) text.length + 1 := by omega
  refine ⟨fun h => hnul (List.mem_of_mem_take h), ?_⟩
  refine ⟨List.replicate (size - 1 - min (size - 1) text.length) 0 ++ behind, ?_⟩
  rw [padded, hcount, List.replicate_succ, List.append_assoc, List.cons_append]

end NgLog
