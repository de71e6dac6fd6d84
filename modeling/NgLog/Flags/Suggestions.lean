import Mathlib.Data.List.GetD
import NgLog.Support.Bytes
import NgLog.Support.EditDistance

/-!
# Suggesting an option for a misspelt one

`LevenshteinDistance` keeps two rows of the table of distances between the prefixes of two strings:
`previous` for the prefix of the first string that has been read, `current` for the next one, which
it fills from left to right. The rows are swapped after each character, so that what `current` holds
when a row begins is the row before `previous`; every entry of it is overwritten before it is read.

The invariant says what each row holds. Prefixes grow at their end and `editDistance` recurs at the
front, so a row is stated about reversed prefixes; `editDistance_reverse` turns the last one back.

## Main definitions

* `levenshteinDistance`, `findClosestMatch`

## Main results

* `levenshteinDistance_eq` — the last entry of the last row is the edit distance
* `findClosestMatch_eq` — the first candidate of least distance, if that is close enough
-/

namespace NgLog.Suggestions

/-! ### The two rows -/

/-- `previous` and `current`. -/
structure Rows where
  /-- The distances of the prefix of the first string that has been read. -/
  previous : List ℕ
  /-- The row being filled. -/
  current : List ℕ

variable (first second : List Byte)

/-- The body of the inner loop. -/
def setEntry (firstIndex : ℕ) (previous current : List ℕ) (secondIndex : ℕ) : List ℕ :=
  let deletion := previous.getD (secondIndex + 1) 0 + 1
  let insertion := current.getD secondIndex 0 + 1
  let substitution := previous.getD secondIndex 0 +
    if first.getD firstIndex 0 = second.getD secondIndex 0 then 0 else 1
  current.set (secondIndex + 1) (min (min deletion insertion) substitution)

/-- The entries of `current` up to `count`. -/
def fillRow (firstIndex : ℕ) (previous current : List ℕ) (count : ℕ) : List ℕ :=
  (List.range count).foldl (setEntry first second firstIndex previous)
    (current.set 0 (firstIndex + 1))

/-- The body of the outer loop, with the swap at its end. -/
def nextRow (rows : Rows) (firstIndex : ℕ) : Rows :=
  ⟨fillRow first second firstIndex rows.previous rows.current second.length, rows.previous⟩

/-- The rows after `count` characters of the first string. -/
def rowsAfter (count : ℕ) : Rows :=
  (List.range count).foldl (nextRow first second)
    ⟨List.range (second.length + 1), List.replicate (second.length + 1) 0⟩

/-- `LevenshteinDistance`. -/
def levenshteinDistance : ℕ :=
  (rowsAfter first second first.length).previous.getLastD 0

example : levenshteinDistance (bytes "kitten") (bytes "sitting") = 3 := by decide

/-! ### What the rows hold -/

/-- The distance of the prefixes of `i` and `j` characters. -/
def prefixDistance (i j : ℕ) : ℕ := editDistance (first.take i).reverse (second.take j).reverse

variable {first second} {i j : ℕ} {row current : List ℕ}

theorem prefixDistance_zero_left (h : j ≤ second.length) : prefixDistance first second 0 j = j := by
  simp [prefixDistance, h]

theorem prefixDistance_zero_right (h : i ≤ first.length) : prefixDistance first second i 0 = i := by
  simp [prefixDistance, h]

theorem prefixDistance_succ_succ (hi : i < first.length) (hj : j < second.length) :
    prefixDistance first second (i + 1) (j + 1) =
      min (min (prefixDistance first second i (j + 1) + 1)
        (prefixDistance first second (i + 1) j + 1))
        (prefixDistance first second i j +
          if first.getD i 0 = second.getD j 0 then 0 else 1) := by
  have hfirst : (first.take (i + 1)).reverse = first[i] :: (first.take i).reverse := by
    rw [← List.take_append_getElem hi, List.reverse_concat]
  have hsecond : (second.take (j + 1)).reverse = second[j] :: (second.take j).reverse := by
    rw [← List.take_append_getElem hj, List.reverse_concat]
  simp only [prefixDistance, hfirst, hsecond, editDistance_cons_cons, List.getD_eq_getElem _ _ hi,
    List.getD_eq_getElem _ _ hj]

variable (first second) in
/-- The row of the prefix of `i` characters, filled below `count`. -/
structure IsRow (i count : ℕ) (row : List ℕ) : Prop where
  length_eq : row.length = second.length + 1
  getD_eq : ∀ j < count, row.getD j 0 = prefixDistance first second i j

theorem isRow_range :
    IsRow first second 0 (second.length + 1) (List.range (second.length + 1)) := by
  refine ⟨by simp, ?_⟩
  intro j hj
  rw [prefixDistance_zero_left (Nat.le_of_lt_succ hj), List.getD_eq_getElem _ _ (by simpa using hj)]
  simp

/-- One entry: it reads the two entries above it and the one on its left. -/
theorem IsRow.setEntry (hprevious : IsRow first second i (second.length + 1) row)
    (h : IsRow first second (i + 1) (j + 1) current) (hi : i < first.length)
    (hj : j < second.length) :
    IsRow first second (i + 1) (j + 2) (setEntry first second i row current j) := by
  have hlength := h.length_eq
  refine ⟨by simp [Suggestions.setEntry, hlength], ?_⟩
  intro k hk
  rcases Nat.eq_or_lt_of_le (Nat.le_of_lt_succ hk) with rfl | hlt
  · rw [prefixDistance_succ_succ hi hj, ← hprevious.getD_eq (j + 1) (by omega),
      ← hprevious.getD_eq j (by omega), ← h.getD_eq j (by omega)]
    simp [Suggestions.setEntry, List.getD_eq_getElem?_getD, hlength, hj]
  · rw [← h.getD_eq k hlt]
    have hne : j + 1 ≠ k := by omega
    simp [Suggestions.setEntry, List.getD_eq_getElem?_getD, List.getElem?_set_ne hne]

/-- The inner loop: whatever `current` held, its entries become those of the next prefix. -/
theorem IsRow.fillRow (hprevious : IsRow first second i (second.length + 1) row)
    (hcurrent : current.length = second.length + 1) (hi : i < first.length)
    (hj : j ≤ second.length) :
    IsRow first second (i + 1) (j + 1) (fillRow first second i row current j) := by
  induction j with
  | zero =>
    refine ⟨by simp [Suggestions.fillRow, hcurrent], ?_⟩
    intro k hk
    obtain rfl : k = 0 := by omega
    rw [prefixDistance_zero_right hi]
    simp [Suggestions.fillRow, List.getD_eq_getElem?_getD, hcurrent]
  | succ j ih =>
    have hfilled := hprevious.setEntry (ih (by omega)) hi hj
    simpa [Suggestions.fillRow, List.range_succ] using hfilled

theorem isRow_rowsAfter (hi : i ≤ first.length) :
    IsRow first second i (second.length + 1) (rowsAfter first second i).previous ∧
      (rowsAfter first second i).current.length = second.length + 1 := by
  induction i with
  | zero => exact ⟨isRow_range, by simp [rowsAfter]⟩
  | succ i ih =>
    obtain ⟨hprevious, hcurrent⟩ := ih (by omega)
    have hstep : rowsAfter first second (i + 1) =
        nextRow first second (rowsAfter first second i) i := by
      simp [rowsAfter, List.range_succ]
    rw [hstep]
    exact ⟨hprevious.fillRow hcurrent hi le_rfl, hprevious.length_eq⟩

/-- The last entry of the last row is the distance of the whole strings. -/
theorem levenshteinDistance_eq (first second : List Byte) :
    levenshteinDistance first second = editDistance first second := by
  obtain ⟨hrow, _⟩ := @isRow_rowsAfter first second first.length le_rfl
  have hlast := hrow.getD_eq second.length (Nat.lt_succ_self _)
  rw [levenshteinDistance, List.getLastD_eq_getLast?, List.getLast?_eq_getElem?, hrow.length_eq,
    Nat.add_sub_cancel, ← List.getD_eq_getElem?_getD, hlast, prefixDistance, List.take_length,
    List.take_length, editDistance_reverse]

/-! ### The closest candidate -/

/-- `closest` and `closest_distance`. -/
structure Closest where
  closest : List Byte
  closestDistance : ℕ

/-- The body of the loop over the candidates. -/
def compareCandidate (value : List Byte) (state : Closest) (candidate : List Byte) : Closest :=
  let distance := levenshteinDistance value candidate
  if distance < state.closestDistance then ⟨candidate, distance⟩ else state

/-- `max(kMinimumSuggestionDistance, value.size() / 2)`. -/
def maximumDistance (value : List Byte) : ℕ := max 2 (value.length / 2)

variable (sizeMax : ℕ)

/-- The loop over the candidates. It starts from `numeric_limits<size_t>::max()`. -/
def compareCandidates (value : List Byte) (candidates : List (List Byte)) : Closest :=
  candidates.foldl (compareCandidate value) ⟨[], sizeMax⟩

/-- `FindClosestMatch`. -/
def findClosestMatch (value : List Byte) (candidates : List (List Byte)) : List Byte :=
  let found := compareCandidates sizeMax value candidates
  if found.closestDistance ≤ maximumDistance value then found.closest else []

variable {sizeMax} {value closest : List Byte} {candidates : List (List Byte)}

/-- After the loop: no candidate was below the start value, or the first of least distance is
kept. -/
theorem compareCandidates_spec (sizeMax : ℕ) (value : List Byte) (candidates : List (List Byte)) :
    (compareCandidates sizeMax value candidates = ⟨[], sizeMax⟩ ∧
        ∀ c ∈ candidates, sizeMax ≤ levenshteinDistance value c) ∨
      ∃ c, IsFirstLeast (levenshteinDistance value) candidates c ∧
        compareCandidates sizeMax value candidates = ⟨c, levenshteinDistance value c⟩ := by
  induction candidates using List.reverseRecOn with
  | nil => exact Or.inl ⟨rfl, by simp⟩
  | append_singleton candidates c ih =>
    have hstep : compareCandidates sizeMax value (candidates ++ [c]) =
        compareCandidate value (compareCandidates sizeMax value candidates) c := by
      simp [compareCandidates]
    rw [hstep]
    rcases ih with ⟨hstate, hall⟩ | ⟨d, hfirst, hstate⟩
    · rw [hstate, compareCandidate]
      by_cases hlt : levenshteinDistance value c < sizeMax
      · refine Or.inr ⟨c, ⟨candidates, [], rfl, ?_, by simp⟩, if_pos hlt⟩
        intro d hd
        exact hlt.trans_le (hall d hd)
      · refine Or.inl ⟨if_neg hlt, ?_⟩
        simpa [or_imp, forall_and] using ⟨hall, Nat.le_of_not_lt hlt⟩
    · rw [hstate, compareCandidate]
      by_cases hlt : levenshteinDistance value c < levenshteinDistance value d
      · exact Or.inr ⟨c, hfirst.concat_of_lt hlt, if_pos hlt⟩
      · exact Or.inr ⟨d, hfirst.concat_of_le (Nat.le_of_not_lt hlt), if_neg hlt⟩

theorem maximumDistance_lt (hmax : 2 < sizeMax) (hvalue : value.length < sizeMax) :
    maximumDistance value < sizeMax := by
  simp only [maximumDistance, Nat.max_lt]
  omega

/-- The first candidate of least distance, if it is close enough. -/
theorem findClosestMatch_eq (hmax : 2 < sizeMax) (hvalue : value.length < sizeMax)
    (hclosest : IsFirstLeast (levenshteinDistance value) candidates closest) :
    findClosestMatch sizeMax value candidates =
      if levenshteinDistance value closest ≤ maximumDistance value then closest else [] := by
  have hfar := maximumDistance_lt hmax hvalue
  rcases compareCandidates_spec sizeMax value candidates with
    ⟨hstate, hall⟩ | ⟨c, hfirst, hstate⟩
  · have hleast := hall closest hclosest.mem
    rw [findClosestMatch, hstate, if_neg (by simpa using hfar), if_neg (by omega)]
  · rw [findClosestMatch, hstate, hfirst.unique hclosest]

theorem findClosestMatch_nil (value : List Byte) : findClosestMatch sizeMax value [] = [] := by
  rw [findClosestMatch, compareCandidates, List.foldl_nil]
  exact ite_self []

/-- **`LevenshteinDistance` is the least number of edits, and `FindClosestMatch` the first closest
candidate within the bound.** `sizeMax` is the greatest `size_t`; no string is as long. -/
theorem closest_by_least_edits (sizeMax : ℕ) (hmax : 2 < sizeMax) (a b value : List Byte)
    (candidates : List (List Byte)) (hvalue : value.length < sizeMax) :
    IsLeast {n | Edits n a b} (levenshteinDistance a b) ∧
      ((∃ closest, IsFirstLeast (levenshteinDistance value) candidates closest ∧
          findClosestMatch sizeMax value candidates =
            if levenshteinDistance value closest ≤ max 2 (value.length / 2) then closest else []) ∨
        (candidates = [] ∧ findClosestMatch sizeMax value candidates = [])) := by
  constructor
  · rw [levenshteinDistance_eq]
    exact isLeast_editDistance a b
  · by_cases h : candidates = []
    · subst h
      exact Or.inr ⟨rfl, findClosestMatch_nil value⟩
    · obtain ⟨closest, hclosest⟩ := exists_first_least (levenshteinDistance value) h
      exact Or.inl ⟨closest, hclosest, findClosestMatch_eq hmax hvalue hclosest⟩

theorem closest_by_least_edits_help :
    IsLeast {n | Edits n (bytes "kitten") (bytes "sitting")} 3 ∧
      ((∃ closest,
        IsFirstLeast (levenshteinDistance (bytes "hlep")) [bytes "logs", bytes "help"] closest ∧
          bytes "help" =
            if levenshteinDistance (bytes "hlep") closest ≤ max 2 2 then closest else []) ∨
        ([bytes "logs", bytes "help"] = [] ∧ bytes "help" = [])) := by
  have h := closest_by_least_edits (2 ^ 64 - 1) (by decide) (bytes "kitten") (bytes "sitting")
    (bytes "hlep") [bytes "logs", bytes "help"] (by decide)
  rwa [show levenshteinDistance (bytes "kitten") (bytes "sitting") = 3 by decide,
    show findClosestMatch (2 ^ 64 - 1) (bytes "hlep") [bytes "logs", bytes "help"] = bytes "help" by
      decide] at h

end NgLog.Suggestions
