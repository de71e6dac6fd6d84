import Mathlib.Data.List.Forall2
import Mathlib.Data.Nat.Notation
import Mathlib.Tactic.Common

/-!
# Paragraphs and wrapped lines

A break ends a paragraph, and so does the end of the text, unless a break is the last character.
A paragraph is wrapped into lines of a bounded length; only blanks are left out, and only behind a
line.

## Main definitions

* `paragraphs` — the paragraphs of a text
* `Wraps` — the lines are those of a paragraph, with the blanks behind each left out

## Main results

* `flatten_paragraphs` — the paragraphs hold all characters but the breaks
* `filter_flatten_wraps` — the lines hold all characters but blanks and breaks
* `Wraps.length_le_forall₂` — the lines are no longer than the width
-/

namespace NgLog

variable {α : Type*}

/-! ### Paragraphs -/

/-- The paragraphs of a text, of which there is at least one. -/
def paragraphs (isBreak : α → Bool) : List α → List (List α)
  | [] => [[]]
  | c :: text =>
    if isBreak c then [] :: if text.isEmpty then [] else paragraphs isBreak text
    else (paragraphs isBreak text).modifyHead (c :: ·)

variable {isBreak keep : α → Bool} {text front rest : List α} {c : α}

/-- What stands before the first break begins the first paragraph. -/
theorem paragraphs_append (h : ∀ c ∈ front, isBreak c = false) :
    paragraphs isBreak (front ++ rest) = (paragraphs isBreak rest).modifyHead (front ++ ·) := by
  induction front with
  | nil =>
    change _ = (paragraphs isBreak rest).modifyHead id
    rw [List.modifyHead_id]
    rfl
  | cons c front ih =>
    have hc := h c List.mem_cons_self
    rw [List.cons_append, paragraphs, hc, if_neg Bool.false_ne_true,
      ih fun c hmem => h c (List.mem_cons_of_mem _ hmem), List.modifyHead_modifyHead]
    rfl

/-- Without a break there is one paragraph. -/
theorem paragraphs_of_no_break (h : ∀ c ∈ text, isBreak c = false) :
    paragraphs isBreak text = [text] := by
  rw [← List.append_nil text, paragraphs_append h, paragraphs, List.modifyHead_cons]

/-- A break at the end ends the last paragraph. -/
theorem paragraphs_concat_break (h : ∀ c ∈ front, isBreak c = false) (hc : isBreak c = true) :
    paragraphs isBreak (front ++ [c]) = [front] := by
  rw [paragraphs_append h, paragraphs, if_pos hc, List.isEmpty_nil, if_pos rfl,
    List.modifyHead_cons, List.append_nil]

/-- Behind a break that is not at the end there are more paragraphs. -/
theorem paragraphs_append_break (h : ∀ c ∈ front, isBreak c = false) (hc : isBreak c = true)
    (hrest : rest ≠ []) :
    paragraphs isBreak (front ++ c :: rest) = front :: paragraphs isBreak rest := by
  have hempty : ¬rest.isEmpty = true := fun hempty => hrest (List.isEmpty_iff.mp hempty)
  rw [paragraphs_append h, paragraphs, if_pos hc, if_neg hempty, List.modifyHead_cons,
    List.append_nil]

theorem flatten_modifyHead_cons (c : α) {lists : List (List α)} (hne : lists ≠ []) :
    (lists.modifyHead (c :: ·)).flatten = c :: lists.flatten := by
  obtain ⟨list, lists, rfl⟩ := List.exists_cons_of_ne_nil hne
  rfl

theorem paragraphs_ne_nil (isBreak : α → Bool) (text : List α) : paragraphs isBreak text ≠ [] := by
  induction text with
  | nil => exact List.cons_ne_nil _ _
  | cons c text ih =>
    rw [paragraphs]
    split
    · exact List.cons_ne_nil _ _
    · rwa [Ne, List.modifyHead_eq_nil_iff]

/-- The paragraphs hold the characters that are not breaks. -/
theorem flatten_paragraphs (isBreak : α → Bool) (text : List α) :
    (paragraphs isBreak text).flatten = text.filter fun c => !isBreak c := by
  induction text with
  | nil => rfl
  | cons c text ih =>
    rw [paragraphs]
    by_cases hc : isBreak c = true
    · rw [if_pos hc, List.flatten_cons, List.nil_append,
        List.filter_cons_of_neg (by rw [hc]; exact Bool.false_ne_true), ← ih]
      cases text with
      | nil => rfl
      | cons d text => rfl
    · rw [if_neg hc, flatten_modifyHead_cons c (paragraphs_ne_nil _ _), ih,
        List.filter_cons_of_pos (by rwa [Bool.not_eq_true', ← Bool.not_eq_true])]

/-! ### Wrapped lines -/

/-- The lines of a paragraph: each is followed by blanks that belong to no line. -/
inductive Wraps (isBlank : α → Bool) (width : ℕ) : List α → List (List α) → Prop
  | nil : Wraps isBlank width [] []
  | line {line blanks rest : List α} {lines : List (List α)} (hlength : line.length ≤ width)
      (hblanks : ∀ c ∈ blanks, isBlank c = true) (h : Wraps isBlank width rest lines) :
      Wraps isBlank width (line ++ (blanks ++ rest)) (line :: lines)

namespace Wraps

variable {isBlank : α → Bool} {width : ℕ} {paragraph : List α} {lines : List (List α)}

theorem length_le (h : Wraps isBlank width paragraph lines) :
    ∀ line ∈ lines, line.length ≤ width := by
  induction h with
  | nil => exact nofun
  | line hlength _ _ ih => exact List.forall_mem_cons.mpr ⟨hlength, ih⟩

/-- The lines hold the characters that are not blank, in order. -/
theorem filter_flatten (h : Wraps isBlank width paragraph lines)
    (hkeep : ∀ c, isBlank c = true → keep c = false) :
    lines.flatten.filter keep = paragraph.filter keep := by
  induction h with
  | nil => rfl
  | line _ hblanks _ ih =>
    have hnil : List.filter keep _ = [] := List.filter_eq_nil_iff.mpr fun c hc => by
      rw [hkeep c (hblanks c hc)]
      exact Bool.false_ne_true
    rw [List.flatten_cons, List.filter_append, List.filter_append, List.filter_append, hnil, ih,
      List.nil_append]

theorem length_le_forall₂ {all : List (List α)} {groups : List (List (List α))}
    (h : List.Forall₂ (Wraps isBlank width) all groups) :
    ∀ line ∈ groups.flatten, line.length ≤ width := by
  induction h with
  | nil => exact fun _ hline => absurd hline List.not_mem_nil
  | cons hwraps _ ih =>
    rw [List.flatten_cons, List.forall_mem_append]
    exact ⟨hwraps.length_le, ih⟩

/-- The lines of some paragraphs hold the characters that are not blank, in order. -/
theorem filter_flatten_forall₂ {all : List (List α)} {groups : List (List (List α))}
    (h : List.Forall₂ (Wraps isBlank width) all groups)
    (hkeep : ∀ c, isBlank c = true → keep c = false) :
    groups.flatten.flatten.filter keep = all.flatten.filter keep := by
  induction h with
  | nil => rfl
  | cons hwraps _ ih =>
    rw [List.flatten_cons, List.flatten_append, List.flatten_cons, List.filter_append,
      List.filter_append, hwraps.filter_flatten hkeep, ih]

end Wraps

/-- The lines of all paragraphs hold the characters that are neither blanks nor breaks, in order. -/
theorem filter_flatten_wraps {isBlank : α → Bool} {width : ℕ} {groups : List (List (List α))}
    (h : List.Forall₂ (Wraps isBlank width) (paragraphs isBreak text) groups)
    (hblank : ∀ c, isBlank c = true → keep c = false)
    (hbreak : ∀ c, isBreak c = true → keep c = false) :
    groups.flatten.flatten.filter keep = text.filter keep := by
  rw [Wraps.filter_flatten_forall₂ h hblank, flatten_paragraphs, List.filter_filter]
  refine List.filter_congr fun c _ => ?_
  cases hc : isBreak c with
  | false => exact Bool.and_true _
  | true => rw [hbreak c hc]; rfl

end NgLog
